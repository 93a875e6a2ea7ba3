import PlainSteps.Proofs.BridgeMessages
import PlainSteps.Proofs.ReplyMatching

/-!
# Which log a response goes to

`Traffic.responses_routed`: after any moves a log has the responses whose lines came while it was the
attached one, each once and in the order of the lines. So they are there before a reply that comes after
them is taken, and neither a reply nor a line that comes while no log is attached is in any log.

What a single move adds to the logs is said by `Traffic.logs_step`. The attached log is that of the last
move that attaches (`Traffic.sink_run`), and the statement about any moves is by induction on them.
-/

namespace PlainSteps.Bridge

/-! ## Lines and logs -/

namespace Move

/-- The response that a line tells of. -/
def response? : Move → Option NetworkEntry
  | .line moment text =>
    match Message.read? text with
    | some (.response e) => some ⟨e, moment⟩
    | _ => none
  | _ => none

/-- The log that responses go to from now on, if the move changes it. -/
def log? : Move → Option (Option Nat)
  | .attach log => some log
  | _ => none

theorem eq_line_of_response? {m : Move} {entry : NetworkEntry} (h : m.response? = some entry) :
    ∃ moment text e, m = .line moment text ∧ Message.read? text = some (.response e) ∧
      entry = ⟨e, moment⟩ := by
  cases m with
  | line moment text =>
    rcases hread : Message.read? text with _ | (r | e)
    · simp [response?, hread] at h
    · simp [response?, hread] at h
    · exact ⟨moment, text, e, rfl, hread, by simpa [response?, hread] using h.symm⟩
  | _ => cases h

theorem response?_line (moment : Timestamp) (event : String) {e : Exchange} (hstatus : e.status < Nat.pow 2 16)
    (helapsed : e.elapsedMs < Nat.pow 2 64) :
    (Move.line moment (responseEvent event e).compact).response? = some ⟨e, moment⟩ := by
  rw [response?, Message.read?_responseEvent event hstatus helapsed]

end Move

namespace Traffic

variable {t : Traffic} {m : Move} {moves more : List Move} {n : Nat}

/-- The log that is attached after moves. -/
def attached (moves : List Move) : Option Nat :=
  (moves.filterMap Move.log?).getLast?.join

/-- What the log with a number hears of in a move after others. -/
def hears (n : Nat) (moves : List Move) (m : Move) : Option NetworkEntry :=
  if attached moves = some n ∧ ended moves = false then m.response? else none

/-- The responses whose lines come while the log with a number is the attached one, in order. -/
def heard (n : Nat) (moves : List Move) : List NetworkEntry :=
  (List.range moves.length).filterMap fun i => moves[i]?.bind (hears n (moves.take i))

theorem attached_concat (moves : List Move) (m : Move) :
    attached (moves ++ [m]) = m.log?.getD (attached moves) := by
  simp only [attached, List.filterMap_append]
  cases h : m.log? <;> simp [h]

theorem heard_concat (n : Nat) (moves : List Move) (m : Move) :
    heard n (moves ++ [m]) = heard n moves ++ (hears n moves m).toList := by
  unfold heard
  rw [List.length_append, List.length_singleton, List.range_succ, List.filterMap_append]
  congr 1
  · refine List.filterMap_congr fun i hi => ?_
    have hlt := List.mem_range.mp hi
    rw [List.take_append_of_le_length (Nat.le_of_lt hlt), List.getElem?_append_left hlt]
  · rw [List.filterMap_cons, List.getElem?_concat_length, List.take_left, Option.bind_some]
    cases hears n moves m <;> rfl

theorem heard_extend (n : Nat) (moves more : List Move) : heard n moves <+: heard n (moves ++ more) := by
  induction more using List.reverseRecOn with
  | nil => exact ⟨[], by rw [List.append_nil, List.append_nil]⟩
  | append_singleton more m ih =>
    rw [← List.append_assoc, heard_concat]
    exact ih.trans (List.prefix_append _ _)

/-! ## What a move adds -/

theorem sink_step (t : Traffic) (m : Move) :
    (t.step m).connection.sink = m.log?.getD t.connection.sink := by
  cases m with
  | start command arguments limit => rfl
  | turn id x =>
    rcases step_turn_cases t id x with hsame | ⟨w, v, -, -, hturn⟩
    · rw [hsame]
      rfl
    · rw [hturn]
      exact (Turn.settle_frame x id _).2
  | line moment text =>
    simp only [step]
    split
    · rw [connection_after]
      exact (Connection.receive_frame _ text).2
    · rfl
  | finish moment =>
    simp only [step]
    split
    · rw [connection_after]
      rfl
    · rfl
  | attach log => rfl

theorem sink_run (moves : List Move) : (run moves).connection.sink = attached moves := by
  induction moves using List.reverseRecOn with
  | nil => rfl
  | append_singleton moves m ih => rw [run_concat, sink_step, ih, attached_concat]

theorem logs_absorbAll {moment : Timestamp} {effects : List Effect}
    (h : ∀ log e, .noted log e ∉ effects) : (effects.foldl (absorb moment) t).logs = t.logs := by
  induction effects generalizing t with
  | nil => rfl
  | cons e effects ih =>
    rw [List.foldl_cons, ih fun log e he => h log e (List.mem_cons_of_mem _ he)]
    cases e with
    | noted log e => exact absurd List.mem_cons_self (h log e)
    | answered r => rfl
    | disconnected id => rfl

theorem logs_step_of_none (h : m.response? = none) : (t.step m).logs = t.logs := by
  cases m with
  | start command arguments limit => rfl
  | turn id x =>
    rcases step_turn_cases t id x with hsame | ⟨w, v, -, -, hturn⟩
    · rw [hsame]
    · rw [hturn]
      rfl
  | line moment text =>
    rcases step_line_cases t moment text with hsame | ⟨hopen, ⟨r, hread⟩ | ⟨e, hread⟩⟩
    · rw [hsame]
    · rw [step, if_pos hopen]
      refine logs_absorbAll fun log e he => ?_
      obtain ⟨heffect, -⟩ := Connection.effect_of_reply hread he
      cases heffect
    · simp [Move.response?, hread] at h
  | finish moment =>
    simp only [step]
    split
    · exact logs_absorbAll fun log e he => by simp [Connection.finish] at he
    · rfl
  | attach log => rfl

/-- A response goes to the attached log, and nothing else goes to any. -/
theorem logs_step (t : Traffic) (m : Move) (n : Nat) :
    ((t.step m).logs n).entries = (t.logs n).entries ++
      (if t.connection.sink = some n ∧ t.connection.isOpen = true then m.response?
        else none).toList := by
  rcases hm : m.response? with _ | entry
  · rw [logs_step_of_none hm, ite_self, Option.toList_none, List.append_nil]
  · obtain ⟨moment, text, e, rfl, hread, rfl⟩ := Move.eq_line_of_response? hm
    rcases hopen : t.connection.isOpen with _ | _
    · rw [step_line_of_closed hopen]
      simp
    · rw [step_line_response hopen hread]
      by_cases hsink : t.connection.sink = some n
      · simp [hsink, NetworkLog.record]
      · simp [hsink]

theorem logs_step_of_detached (h : t.connection.sink = none) (m : Move) :
    (t.step m).logs = t.logs := by
  funext n
  have hentries := logs_step t m n
  simp only [h, reduceCtorEq, false_and, if_false, Option.toList_none, List.append_nil] at hentries
  exact congrArg NetworkLog.mk hentries

theorem logs_run (moves : List Move) (n : Nat) : ((run moves).logs n).entries = heard n moves := by
  induction moves using List.reverseRecOn with
  | nil => rfl
  | append_singleton moves m ih =>
    rw [run_concat, logs_step, ih, heard_concat, sink_run, isOpen_run, hears]
    simp only [Bool.not_eq_true']

/-- A response is in the log that was attached when its line came. -/
theorem mem_logs_run {before after : List Move} {entry : NetworkEntry} (hn : attached before = some n)
    (hended : ended before = false) (hm : m.response? = some entry) :
    entry ∈ ((run (before ++ m :: after)).logs n).entries := by
  have hnew : entry ∈ heard n (before ++ [m]) := by
    rw [heard_concat, hears, if_pos ⟨hn, hended⟩, hm]
    exact List.mem_append_right _ (List.mem_singleton_self _)
  rw [logs_run, ← List.singleton_append, ← List.append_assoc]
  exact (heard_extend n _ after).subset hnew

/-! ## Responses and logs -/

/-- Responses go to the log that is attached when they come. -/
structure ResponsesRouted (moves : List Move) : Prop where
  /-- A log has the responses whose lines came while it was the attached one, each once and in the
  order of the lines. -/
  entries : ∀ n, ((run moves).logs n).entries = heard n moves
  /-- Where a reply has been taken, all responses whose lines came before it are in their logs. -/
  replied : ∀ w ∈ (run moves).waiters, ∀ r, w.stage = .over (.replied r) →
    ∃ before moment text after, moves = before ++ .line moment text :: after ∧
      Answer before text w.number r ∧
      ∀ earlier m later n entry, before = earlier ++ m :: later → attached earlier = some n →
        m.response? = some entry → entry ∈ ((run moves).logs n).entries
  /-- What comes while no log is attached is in no log. -/
  detached : ∀ moment text, attached moves = none →
    (run (moves ++ [.line moment text])).logs = (run moves).logs
  /-- A reply is in no log, even if it could be taken for a response. -/
  reply : ∀ moment text r, (Json.read? text).bind Reply.ofJson? = some r →
    (run (moves ++ [.line moment text])).logs = (run moves).logs

/-- Whatever lines come, and whichever logs are attached between them, no response is lost, noted twice
or noted in another log. -/
theorem responses_routed (moves : List Move) : ResponsesRouted moves := by
  constructor
  case entries => exact logs_run moves
  case replied =>
    intro w hw r hr
    obtain ⟨before, moment, text, after, rfl, hanswer⟩ := reply_origin hw (.inr hr)
    refine ⟨before, moment, text, after, rfl, hanswer, ?_⟩
    rintro earlier m later n entry rfl hn hm
    have hended := hanswer.isOpen
    rw [ended_append, Bool.or_eq_false_iff] at hended
    rw [List.append_assoc, List.cons_append]
    exact mem_logs_run hn hended.1 hm
  case detached =>
    intro moment text hnone
    rw [run_concat]
    exact logs_step_of_detached ((sink_run moves).trans hnone) _
  case reply =>
    intro moment text r hread
    have hmessage : Message.read? text = some (.reply r) := by
      obtain ⟨v, hv, hr⟩ := Option.bind_eq_some_iff.mp hread
      simp [Message.read?, Message.ofJson?, hv, hr]
    rw [run_concat]
    exact logs_step_of_none (by simp only [Move.response?, hmessage])

/-- A line that tells of a response from an address. -/
def responseLine (url : String) : Move :=
  .line default (responseEvent "response" ⟨url, "GET", 200, 0⟩).compact

example :
    let reply := Move.line default (Json.object [("id", .nat 1), ("ok", .bool true)]).compact
    let moves := [responseLine "/a", .attach (some 0), responseLine "/b", reply, responseLine "/b",
      .attach (some 1), .line default "garbage", responseLine "/c", .attach none, responseLine "/d",
      .finish default]
    [0, 1].map (fun n => ((run moves).logs n).entries.map (·.exchange.url)) = [["/b", "/b"], ["/c"]] := by
  decide +kernel

end Traffic

end PlainSteps.Bridge
