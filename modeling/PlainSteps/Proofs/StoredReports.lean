import PlainSteps.Command.RunCases
import PlainSteps.Proofs.ExitCode
import PlainSteps.Proofs.JsonRecords
import PlainSteps.Proofs.TimestampText

/-!
# Stored reports are read back

`RunReport.stored_restored`: a report that is printed as JSON or written to a file is read back from the
text, and of the names of fields that may be left out (`optionalNames`) those occur in the text that the
report has a value for, and no others.

Each record is treated alike. Its values are `Representable` if they are of the types that its fields have:
counts of 64 bits, a status of 16, and moments that can be told. Then it is read from its value
(`ofJson?_toJson`), since all its fields are found by their names, and its value fits into a text
(`fits_toJson`), two levels deeper for each record and each list in it. The names that occur in it are told
field by field (`occurring_toJson`).
-/

namespace PlainSteps

open Json

/-- The names of fields that are left out when there is no value for them. -/
def optionalNames : List String := ["error", "note", "screenshot", "network"]

/-- The name of a field, if it is there. -/
def shown (name : String) (isThere : Bool) : List String :=
  if isThere then [name] else []

/-! ## Values of fields -/

theorem occurringIn_required {name : String} (h : name ∉ optionalNames) (v : Json) :
    occurringIn optionalNames name (some v) = v.occurring optionalNames := by
  simp [occurringIn, h]

theorem occurringIn_optional {α : Type} {name : String} (h : name ∈ optionalNames) {write : α → Json}
    (hwrite : ∀ a, (write a).occurring optionalNames = []) (x : Option α) :
    occurringIn optionalNames name (x.map write) = shown name x.isSome := by
  cases x <;> simp [occurringIn, shown, h, hwrite]

theorem Timestamp.ofJson?_toJson {t : Timestamp} (h : t.Representable) : ofJson? t.toJson = some t := by
  rw [ofJson?, toJson, text?, Option.bind_some, read?_text h]

theorem Timestamp.optional?_toJson {t : Option Timestamp} (h : ∀ t' ∈ t, t'.Representable) :
    optional? ofJson? (some (t.elim .null toJson)) = some t :=
  optional?_elim (fun _ _ h => nomatch h) fun t' ht' => ofJson?_toJson (h t' ht')

theorem Timestamp.fits_elim (d : Nat) (t : Option Timestamp) : (t.elim .null toJson).Fits (d + 1) := by
  cases t with
  | none => exact fits_null d
  | some t => exact fits_string d t.text

theorem Json.optional?_text (s : Option String) : optional? text? (s.map string) = some s :=
  optional?_map (fun _ _ h => nomatch h) fun _ _ => rfl

theorem Json.fits_text (d : Nat) (s : Option String) : ∀ v ∈ s.map string, v.Fits (d + 1) :=
  fits_optional fun s _ => fits_string d s

/-! ## Steps -/

theorem StepStatus.ofJson?_word (s : StepStatus) : ofJson? (.string s.word) = some s := by
  cases s <;> decide

theorem StepNote.ofJson?_word (n : StepNote) : ofJson? (.string n.word) = some n := by
  cases n <;> decide

namespace NetworkEntry

/-- Counts of the size of their fields, and a moment that can be told. -/
structure Representable (e : NetworkEntry) : Prop where
  status : e.exchange.status < Nat.pow 2 16
  elapsedMs : e.exchange.elapsedMs < Nat.pow 2 64
  timestamp : e.timestamp.Representable

variable {e : NetworkEntry}

theorem ofJson?_toJson (h : e.Representable) : ofJson? e.toJson = some e := by
  have hfields : e.toJson.fields? fieldNames = some [some (.string e.exchange.url),
      some (.string e.exchange.method), some (.nat e.exchange.status), some e.timestamp.toJson,
      some (.nat e.exchange.elapsedMs)] := fields?_object (by decide) rfl
  rw [ofJson?, hfields]
  simp only [bind_of_read (natural?_nat h.status), bind_of_read (count?_nat h.elapsedMs),
    bind_of_read (Timestamp.ofJson?_toJson h.timestamp)]
  rfl

theorem fits_toJson (h : e.Representable) (d : Nat) : e.toJson.Fits (d + 2) := by
  have hstatus : e.exchange.status < Nat.pow 2 64 := Nat.lt_trans h.status (by decide)
  refine fits_object ?_
  simp only [List.forall_mem_cons, List.not_mem_nil, false_implies, implies_true, and_true]
  exact ⟨fits_string d _, fits_string d _, fits_nat d hstatus, fits_string d _, fits_nat d h.elapsedMs⟩

theorem occurring_toJson (e : NetworkEntry) : e.toJson.occurring optionalNames = [] := by
  rfl

end NetworkEntry

namespace Screenshot

variable {s : Screenshot}

theorem ofJson?_toJson (h : s.bytes < Nat.pow 2 64) : ofJson? s.toJson = some s := by
  have hfields : s.toJson.fields? fieldNames =
      some [some (.string s.path), some (.nat s.bytes), some (.string s.sha256)] :=
    fields?_object (by decide) rfl
  rw [ofJson?, hfields]
  simp only [bind_of_read (count?_nat h)]
  rfl

theorem fits_toJson (h : s.bytes < Nat.pow 2 64) (d : Nat) : s.toJson.Fits (d + 2) := by
  refine fits_object ?_
  simp only [List.forall_mem_cons, List.not_mem_nil, false_implies, implies_true, and_true]
  exact ⟨fits_string d _, fits_nat d h, fits_string d _⟩

theorem occurring_toJson (s : Screenshot) : s.toJson.occurring optionalNames = [] := by
  rfl

end Screenshot

namespace StepResult

/-- Counts of 64 bits, and moments that can be told. -/
structure Representable (s : StepResult) : Prop where
  index : s.index < Nat.pow 2 64
  startedAt : s.startedAt.Representable
  finishedAt : ∀ t ∈ s.finishedAt, t.Representable
  durationMs : s.durationMs < Nat.pow 2 64
  screenshot : ∀ p ∈ s.screenshot, p.bytes < Nat.pow 2 64
  network : ∀ es ∈ s.network, ∀ e ∈ es, e.Representable

/-- The names of the fields that a step has a value for, of those that may be left out. -/
def names (s : StepResult) : List String :=
  shown "error" s.error.isSome ++ shown "note" s.note.isSome ++
    shown "screenshot" s.screenshot.isSome ++ shown "network" s.network.isSome

variable {s : StepResult}

theorem ofJson?_toJson (h : s.Representable) : ofJson? s.toJson = some s := by
  have hfields : s.toJson.fields? fieldNames = some [some (.nat s.index), some (.string s.description),
      some (.string s.status.word), some s.startedAt.toJson,
      some (s.finishedAt.elim .null Timestamp.toJson), some (.nat s.durationMs), s.error.map .string,
      s.note.map fun n => .string n.word, s.screenshot.map (·.toJson),
      s.network.map fun es => .array (es.map (·.toJson))] := fields?_record (by decide) rfl
  have hnote : optional? StepNote.ofJson? (s.note.map fun n => .string n.word) = some s.note :=
    optional?_map (fun _ _ h => nomatch h) fun n _ => n.ofJson?_word
  have hscreenshot : optional? Screenshot.ofJson? (s.screenshot.map (·.toJson)) = some s.screenshot :=
    optional?_map (fun _ _ h => nomatch h) fun p hp => Screenshot.ofJson?_toJson (h.screenshot p hp)
  have hnetwork : optional? (list? NetworkEntry.ofJson?)
      (s.network.map fun es => .array (es.map (·.toJson))) = some s.network :=
    optional?_map (fun _ _ h => nomatch h) fun es hes =>
      list?_array fun e he => NetworkEntry.ofJson?_toJson (h.network es hes e he)
  rw [ofJson?, hfields]
  simp only [bind_of_read (count?_nat h.index), bind_of_read (StepStatus.ofJson?_word s.status),
    bind_of_read (Timestamp.ofJson?_toJson h.startedAt), Timestamp.optional?_toJson h.finishedAt,
    bind_of_read (count?_nat h.durationMs), optional?_text, hnote, hscreenshot, hnetwork]
  rfl

theorem fits_toJson (h : s.Representable) (d : Nat) : s.toJson.Fits (d + 4) := by
  have hnote : ∀ v ∈ s.note.map fun n => string n.word, v.Fits (d + 3) :=
    fits_optional fun n _ => fits_string _ n.word
  have hscreenshot : ∀ v ∈ s.screenshot.map (·.toJson), v.Fits (d + 3) :=
    fits_optional fun p hp => Screenshot.fits_toJson (h.screenshot p hp) _
  have hnetwork : ∀ v ∈ s.network.map fun es => array (es.map (·.toJson)), v.Fits (d + 3) :=
    fits_optional fun es hes => fits_list fun e he => NetworkEntry.fits_toJson (h.network es hes e he) d
  refine fits_record ?_
  simp only [List.forall_mem_cons, List.not_mem_nil, false_implies, implies_true, and_true,
    Option.mem_some_iff, forall_eq']
  exact ⟨fits_nat _ h.index, fits_string _ _, fits_string _ _, fits_string _ _, Timestamp.fits_elim _ _,
    fits_nat _ h.durationMs, fits_text _ _, hnote, hscreenshot, hnetwork⟩

theorem occurring_toJson (s : StepResult) : s.toJson.occurring optionalNames = s.names := by
  have hfinished : (s.finishedAt.elim .null Timestamp.toJson).occurring optionalNames = [] := by
    cases s.finishedAt <;> rfl
  have hlog : ∀ es : List NetworkEntry, (array (es.map (·.toJson))).occurring optionalNames = [] := by
    intro es
    rw [occurring_list, List.flatMap_eq_nil_iff]
    exact fun e _ => e.occurring_toJson
  have herror := occurringIn_optional (by decide : "error" ∈ optionalNames) (occurring_string _) s.error
  have hnote := occurringIn_optional (by decide : "note" ∈ optionalNames)
    (fun n : StepNote => occurring_string _ n.word) s.note
  have hscreenshot := occurringIn_optional (by decide : "screenshot" ∈ optionalNames)
    Screenshot.occurring_toJson s.screenshot
  have hnetwork := occurringIn_optional (by decide : "network" ∈ optionalNames) hlog s.network
  rw [toJson, occurring_record]
  simp (disch := decide) only [List.flatMap_cons, List.flatMap_nil, occurringIn_required, occurring_nat,
    occurring_string, Timestamp.toJson, hfinished, herror, hnote, hscreenshot, hnetwork]
  simp [names]

end StepResult

/-! ## Cases -/

theorem CaseStatus.ofJson?_word (s : CaseStatus) : ofJson? (.string s.word) = some s := by
  cases s <;> decide

theorem Termination.ofJson?_word (t : Termination) : ofJson? (.string t.word) = some t := by
  cases t <;> decide

namespace CaseSummary

structure Representable (s : CaseSummary) : Prop where
  passed : s.passed < Nat.pow 2 64
  failed : s.failed < Nat.pow 2 64
  executed : s.executed < Nat.pow 2 64
  total : s.total < Nat.pow 2 64

variable {s : CaseSummary}

theorem ofJson?_toJson (h : s.Representable) : ofJson? s.toJson = some s := by
  have hfields : s.toJson.fields? fieldNames =
      some [some (.nat s.passed), some (.nat s.failed), some (.nat s.executed), some (.nat s.total)] :=
    fields?_object (by decide) rfl
  rw [ofJson?, hfields]
  simp only [bind_of_read (count?_nat h.passed), bind_of_read (count?_nat h.failed),
    bind_of_read (count?_nat h.executed), bind_of_read (count?_nat h.total)]
  rfl

theorem fits_toJson (h : s.Representable) (d : Nat) : s.toJson.Fits (d + 2) := by
  refine fits_object ?_
  simp only [List.forall_mem_cons, List.not_mem_nil, false_implies, implies_true, and_true]
  exact ⟨fits_nat d h.passed, fits_nat d h.failed, fits_nat d h.executed, fits_nat d h.total⟩

theorem occurring_toJson (s : CaseSummary) : s.toJson.occurring optionalNames = [] := by
  rfl

end CaseSummary

namespace CaseResult

/-- Counts of 64 bits, and moments that can be told. -/
structure Representable (c : CaseResult) : Prop where
  steps : ∀ s ∈ c.steps, s.Representable
  summary : c.summary.Representable
  startedAt : c.startedAt.Representable
  finishedAt : c.finishedAt.Representable
  durationMs : c.durationMs < Nat.pow 2 64

/-- The names of the fields that a case and its steps have a value for, of those that may be left out. -/
def names (c : CaseResult) : List String :=
  c.steps.flatMap (·.names) ++ shown "error" c.error.isSome

variable {c : CaseResult}

theorem ofJson?_toJson (h : c.Representable) : ofJson? c.toJson = some c := by
  have hfields : c.toJson.fields? fieldNames = some [some (.string c.caseId), some (.string c.name),
      some (.string c.description), some (.strings c.tags), some (.array (c.steps.map (·.toJson))),
      some c.summary.toJson, some (.string c.status.word), some (.string c.termination.word),
      some c.startedAt.toJson, some c.finishedAt.toJson, some (.nat c.durationMs),
      c.error.map .string] := fields?_record (by decide) rfl
  have htags : orElse? [] (list? text?) (some (.strings c.tags)) = some c.tags := list?_strings c.tags
  have hsteps : list? StepResult.ofJson? (.array (c.steps.map (·.toJson))) = some c.steps :=
    list?_array fun s hs => StepResult.ofJson?_toJson (h.steps s hs)
  rw [ofJson?, hfields]
  simp only [htags, bind_of_read hsteps, bind_of_read (CaseSummary.ofJson?_toJson h.summary),
    bind_of_read (CaseStatus.ofJson?_word c.status), bind_of_read (Termination.ofJson?_word c.termination),
    bind_of_read (Timestamp.ofJson?_toJson h.startedAt), bind_of_read (Timestamp.ofJson?_toJson h.finishedAt),
    bind_of_read (count?_nat h.durationMs), optional?_text]
  rfl

theorem fits_toJson (h : c.Representable) (d : Nat) : c.toJson.Fits (d + 6) := by
  have hsteps : (array (c.steps.map (·.toJson))).Fits (d + 5) :=
    fits_list fun s hs => StepResult.fits_toJson (h.steps s hs) d
  refine fits_record ?_
  simp only [List.forall_mem_cons, List.not_mem_nil, false_implies, implies_true, and_true,
    Option.mem_some_iff, forall_eq']
  exact ⟨fits_string _ _, fits_string _ _, fits_string _ _, fits_strings _ _, hsteps,
    CaseSummary.fits_toJson h.summary _, fits_string _ _, fits_string _ _, fits_string _ _,
    fits_string _ _, fits_nat _ h.durationMs, fits_text _ _⟩

theorem occurring_toJson (c : CaseResult) : c.toJson.occurring optionalNames = c.names := by
  have hsteps : (array (c.steps.map (·.toJson))).occurring optionalNames = c.steps.flatMap (·.names) := by
    rw [occurring_list]
    exact List.flatMap_congr fun s _ => s.occurring_toJson
  have herror := occurringIn_optional (by decide : "error" ∈ optionalNames) (occurring_string _) c.error
  rw [toJson, occurring_record]
  simp (disch := decide) only [List.flatMap_cons, List.flatMap_nil, occurringIn_required, occurring_nat,
    occurring_string, occurring_strings, Timestamp.toJson, hsteps, CaseSummary.occurring_toJson, herror]
  simp [names]

end CaseResult

/-! ## Runs -/

namespace RunSummary

structure Representable (s : RunSummary) : Prop where
  totalCases : s.totalCases < Nat.pow 2 64
  passedCases : s.passedCases < Nat.pow 2 64
  failedCases : s.failedCases < Nat.pow 2 64
  totalSteps : s.totalSteps < Nat.pow 2 64
  passedSteps : s.passedSteps < Nat.pow 2 64
  failedSteps : s.failedSteps < Nat.pow 2 64
  durationMs : s.durationMs < Nat.pow 2 64

variable {s : RunSummary}

theorem ofJson?_toJson (h : s.Representable) : ofJson? s.toJson = some s := by
  have hfields : s.toJson.fields? fieldNames = some [some (.nat s.totalCases), some (.nat s.passedCases),
      some (.nat s.failedCases), some (.nat s.totalSteps), some (.nat s.passedSteps),
      some (.nat s.failedSteps), some (.nat s.durationMs)] := fields?_object (by decide) rfl
  rw [ofJson?, hfields]
  simp only [bind_of_read (count?_nat h.totalCases), bind_of_read (count?_nat h.passedCases),
    bind_of_read (count?_nat h.failedCases), bind_of_read (count?_nat h.totalSteps),
    bind_of_read (count?_nat h.passedSteps), bind_of_read (count?_nat h.failedSteps),
    bind_of_read (count?_nat h.durationMs)]
  rfl

theorem fits_toJson (h : s.Representable) (d : Nat) : s.toJson.Fits (d + 2) := by
  refine fits_object ?_
  simp only [List.forall_mem_cons, List.not_mem_nil, false_implies, implies_true, and_true]
  exact ⟨fits_nat d h.totalCases, fits_nat d h.passedCases, fits_nat d h.failedCases,
    fits_nat d h.totalSteps, fits_nat d h.passedSteps, fits_nat d h.failedSteps, fits_nat d h.durationMs⟩

theorem occurring_toJson (s : RunSummary) : s.toJson.occurring optionalNames = [] := by
  rfl

end RunSummary

namespace RunReport

/-- Counts of 64 bits, and moments that can be told. -/
structure Representable (r : RunReport) : Prop where
  startedAt : r.startedAt.Representable
  finishedAt : r.finishedAt.Representable
  summary : r.summary.Representable
  cases : ∀ c ∈ r.cases, c.Representable

/-- The names of the fields that a report, its cases and their steps have a value for, of those that may be
left out. -/
def names (r : RunReport) : List String :=
  r.cases.flatMap (·.names) ++ shown "error" r.error.isSome

variable {r : RunReport}

theorem ofJson?_toJson (h : r.Representable) : ofJson? r.toJson = some r := by
  have hfields : r.toJson.fields? fieldNames = some [some (.string r.runId), some (.string r.targetUrl),
      some r.startedAt.toJson, some r.finishedAt.toJson, some r.summary.toJson,
      some (.array (r.cases.map (·.toJson))), r.error.map .string] := fields?_record (by decide) rfl
  have hcases : list? CaseResult.ofJson? (.array (r.cases.map (·.toJson))) = some r.cases :=
    list?_array fun c hc => CaseResult.ofJson?_toJson (h.cases c hc)
  rw [ofJson?, hfields]
  simp only [bind_of_read (Timestamp.ofJson?_toJson h.startedAt),
    bind_of_read (Timestamp.ofJson?_toJson h.finishedAt), bind_of_read (RunSummary.ofJson?_toJson h.summary),
    bind_of_read hcases, optional?_text]
  rfl

theorem fits_toJson (h : r.Representable) : r.toJson.Fits 8 := by
  have hcases : (array (r.cases.map (·.toJson))).Fits 7 :=
    fits_list fun c hc => CaseResult.fits_toJson (h.cases c hc) 0
  refine fits_record ?_
  simp only [List.forall_mem_cons, List.not_mem_nil, false_implies, implies_true, and_true,
    Option.mem_some_iff, forall_eq']
  exact ⟨fits_string _ _, fits_string _ _, fits_string _ _, fits_string _ _,
    RunSummary.fits_toJson h.summary _, hcases, fits_text _ _⟩

theorem occurring_toJson (r : RunReport) : r.toJson.occurring optionalNames = r.names := by
  have hcases : (array (r.cases.map (·.toJson))).occurring optionalNames = r.cases.flatMap (·.names) := by
    rw [occurring_list]
    exact List.flatMap_congr fun c _ => c.occurring_toJson
  have herror := occurringIn_optional (by decide : "error" ∈ optionalNames) (occurring_string _) r.error
  rw [toJson, occurring_record]
  simp (disch := decide) only [List.flatMap_cons, List.flatMap_nil, occurringIn_required, occurring_string,
    Timestamp.toJson, RunSummary.occurring_toJson, hcases, herror]
  simp [names]

/-- A text from which a report is read back, in which no field occurs that the report has no value for. -/
structure RestoredFrom (r : RunReport) (text : String) : Prop where
  read : (Json.read? text).bind ofJson? = some r
  names : (Json.read? text).map (occurring optionalNames) = some r.names

theorem restoredFrom_pretty (h : r.Representable) {s : String} (hs : ∀ c ∈ s.toList, c = '\n') :
    r.RestoredFrom (r.toJson.pretty ++ s) := by
  have hread := read?_of_fits (fits_toJson h) (by decide) hs
  constructor
  · rw [hread, Option.bind_some, ofJson?_toJson h]
  · rw [hread, Option.map_some, occurring_toJson]

variable {σ : Type} {host : Command.Host σ} {path : String}

/-- A report is read back from what is printed of it as JSON, and from the file that is written of it if
one can be written. -/
theorem stored_restored (h : r.Representable) (emphasis : Bool) (f : Format) (s : Session σ) :
    r.RestoredFrom (r.printed emphasis .json).out ∧
      (host.mayWrite path = .ok () → ∃ text,
        (Command.reported host f (some path) r s).writes = [(path, text)] ∧ r.RestoredFrom text) := by
  constructor
  · have hline : ∀ c ∈ "\n".toList, c = '\n' := by simp
    exact restoredFrom_pretty h hline
  · intro hwrite
    refine ⟨r.toJson.pretty, ?_, ?_⟩
    · rw [Command.reported, hwrite]
    · have htext := restoredFrom_pretty h (s := "") (by simp)
      rwa [String.append_empty] at htext

/-- A step with all that may be left out. -/
def attempt : StepResult where
  index := 0
  description := "Click\ton \"Größe\""
  status := .fail
  startedAt := ⟨-1, 999000000⟩
  finishedAt := some ⟨0, 1⟩
  durationMs := 2
  error := some "no \\ such element"
  note := some .conditionNotMet
  screenshot := some ⟨"beweise/läuft-1/größe/step-1.png", maxWhole, "ab"⟩
  network := some [⟨⟨"https://händler.test/", "GET", 404, 12⟩, ⟨0, 250000⟩⟩]

/-- A report on a case with such a step and one that has not ended, which has nothing of it. -/
def halfway : RunReport where
  runId := "läuft-1"
  targetUrl := "https://händler.test/?q=\"π\""
  startedAt := ⟨0, 0⟩
  finishedAt := ⟨1483228799, 1500000000⟩
  summary := ⟨1, 0, 1, 2, 0, 1, 1500⟩
  cases := [{
    caseId := "größe"
    name := "Größe"
    description := ""
    tags := ["shop", "日本"]
    steps := [attempt, .begun 1 "Wait" ⟨0, 2⟩]
    summary := ⟨0, 1, 2, 2⟩
    status := .fail
    termination := .timedOut
    startedAt := ⟨0, 0⟩
    finishedAt := ⟨3, 0⟩
    durationMs := 3000
    error := none }]
  error := some "browser lost"

theorem representable_attempt : attempt.Representable where
  index := by decide
  startedAt := by decide
  finishedAt := by decide
  durationMs := by decide
  screenshot := by decide
  network := by
    rintro es ⟨⟩ e he
    obtain rfl := List.mem_singleton.mp he
    exact ⟨by decide, by decide, by decide⟩

theorem representable_begun {index : Nat} (h : index < Nat.pow 2 64) (description : String) {now : Timestamp}
    (hnow : now.Representable) : (StepResult.begun index description now).Representable where
  index := h
  startedAt := hnow
  finishedAt := by rintro t ⟨⟩
  durationMs := (by decide : 0 < Nat.pow 2 64)
  screenshot := by rintro p ⟨⟩
  network := by rintro es ⟨⟩

theorem representable_halfway : halfway.Representable where
  startedAt := by decide
  finishedAt := by decide
  summary := ⟨by decide, by decide, by decide, by decide, by decide, by decide, by decide⟩
  cases := by
    intro c hc
    obtain rfl := List.mem_singleton.mp hc
    refine ⟨?_, ⟨by decide, by decide, by decide, by decide⟩, by decide, by decide, by decide⟩
    have hmoment : Timestamp.Representable ⟨0, 2⟩ := by decide
    have hbegun := representable_begun (by decide : 1 < Nat.pow 2 64) "Wait" hmoment
    simp only [List.forall_mem_cons]
    exact ⟨representable_attempt, hbegun, by simp⟩

/-- A report with what may be left out and without it, whose path and texts go beyond ASCII. -/
theorem stored_restored_halfway :
    let path := "berichte/läuft-1.json"
    let done := Command.reported Command.Host.bare .table (some path) halfway (Command.opening .bare .table)
    halfway.Representable ∧ Command.Host.bare.mayWrite path = .ok () ∧
      halfway.names = ["error", "note", "screenshot", "network", "error"] ∧
      halfway.RestoredFrom (halfway.printed false .json).out ∧
      ∃ text, done.writes = [(path, text)] ∧ halfway.RestoredFrom text := by
  intro path done
  have hwrite : Command.Host.bare.mayWrite path = .ok () := by
    have hnone : Command.Host.bare.isFile = fun _ => false := rfl
    have hlook : Command.Host.bare.look path = .nothing := rfl
    have hslash : (path.toList.getLast? == some '/') = false := by decide
    simp [Command.Host.mayWrite, hnone, hlook, hslash]
  obtain ⟨hprinted, hwritten⟩ := stored_restored representable_halfway false .table
    (Command.opening .bare .table)
  exact ⟨representable_halfway, hwrite, by decide, hprinted, hwritten hwrite⟩

end RunReport

end PlainSteps
