import PlainSteps.Proofs.ResponseRouting

/-!
# Calls as traffic

A client makes one request after another, and all that its helper has written is there before it goes on.
So its calls are moves on a connection in one of the orders that are possible (`Client.moves`), and what
holds of all orders holds of it: `Client.Follows.send` says that a call ends as the one who waits for the
reply learns, on the same connection, and with the same responses in the attached log.
-/

namespace PlainSteps.Bridge

/-! ## Lines one after another -/

namespace Connection

variable {c : Connection} {id : Nat}

theorem receiveAll_cons (c : Connection) (line : String) (lines : List String) :
    c.receiveAll (line :: lines) =
      ((c.receive line).1 ++ ((c.receive line).2.receiveAll lines).1,
        ((c.receive line).2.receiveAll lines).2) :=
  rfl

theorem awaits_of_receive {text : String} (h : (c.receive text).2.Awaits id) : c.Awaits id := by
  rcases hread : Message.read? text with _ | (r | e)
  · rwa [receive_none hread] at h
  · simp only [receive, hread, route] at h
    rcases hfind : c.pending.find? (·.id == r.id) with _ | p
    · rwa [hfind] at h
    · rw [hfind] at h
      exact (awaits_without.mp h).1
  · rwa [receive_response hread] at h

end Connection

namespace Client

theorem reply?_append (id : Nat) (effects more : List Effect) :
    reply? id (effects ++ more) = (reply? id effects).or (reply? id more) :=
  List.findSome?_append

theorem reply?_answered (id : Nat) (r : Reply) :
    reply? id [.answered r] = if r.id = id then some r else none := by
  by_cases h : r.id = id <;> simp [reply?, h]

theorem noted_append (effects more : List Effect) :
    noted (effects ++ more) = noted effects ++ noted more :=
  List.filterMap_append

theorem noted_receive (c : Connection) (text : String) : noted (c.receive text).1 =
    match Message.read? text with
    | some (.response e) => (c.sink.map fun _ => e).toList
    | _ => [] := by
  rcases hread : Message.read? text with _ | (r | e)
  · rw [Connection.receive_none hread]
    rfl
  · rw [noted, List.filterMap_eq_nil_iff]
    intro e he
    rw [(Connection.effect_of_reply hread he).1]
  · rw [Connection.receive_response hread]
    cases c.sink <;> rfl

theorem reply?_receive_of_not_awaits {c : Connection} {id : Nat} (h : ¬c.Awaits id) (text : String) :
    reply? id (c.receive text).1 = none := by
  rw [reply?, List.findSome?_eq_none_iff]
  rintro (r | id' | ⟨log, e⟩) heffect
  · obtain ⟨-, hawaits⟩ := Connection.awaits_of_answered heffect
    have hid : r.id ≠ id := fun hid => h (hid ▸ hawaits)
    simp only [if_neg hid]
  · rfl
  · rfl

theorem reply?_receiveAll_of_not_awaits {c : Connection} {id : Nat} (h : ¬c.Awaits id)
    (lines : List String) : reply? id (c.receiveAll lines).1 = none := by
  induction lines generalizing c with
  | nil => rfl
  | cons line lines ih =>
    rw [Connection.receiveAll_cons, reply?_append, reply?_receive_of_not_awaits h, Option.none_or]
    exact ih fun hawaits => h (Connection.awaits_of_receive hawaits)

end Client

namespace Traffic

variable {t : Traffic} {id n : Nat} {w : Waiter}

/-- Lines that come one after another. -/
def hear (moment : Timestamp) (lines : List String) (t : Traffic) : Traffic :=
  (lines.map (Move.line moment)).foldl step t

theorem hear_cons (moment : Timestamp) (line : String) (lines : List String) (t : Traffic) :
    t.hear moment (line :: lines) = (t.step (.line moment line)).hear moment lines :=
  rfl

theorem connection_step_line (hopen : t.connection.isOpen = true) (moment : Timestamp) (text : String) :
    (t.step (.line moment text)).connection = (t.connection.receive text).2 := by
  rw [step, if_pos hopen, connection_after]

theorem isOpen_step_line (hopen : t.connection.isOpen = true) (moment : Timestamp) (text : String) :
    (t.step (.line moment text)).connection.isOpen = true := by
  rw [isOpen_step, hopen]
  rfl

theorem connection_hear (hopen : t.connection.isOpen = true) (moment : Timestamp)
    (lines : List String) :
    (t.hear moment lines).connection = (t.connection.receiveAll lines).2 := by
  induction lines generalizing t with
  | nil => rfl
  | cons line lines ih =>
    rw [hear_cons, ih (isOpen_step_line hopen moment line), connection_step_line hopen]
    rfl

theorem Inv.hear (h : t.Inv n) (moment : Timestamp) (lines : List String) :
    (t.hear moment lines).Inv n := by
  induction lines generalizing t with
  | nil => exact h
  | cons line lines ih => exact ih (h.line moment line)

theorem isOpen_hear (hopen : t.connection.isOpen = true) (moment : Timestamp) (lines : List String) :
    (t.hear moment lines).connection.isOpen = true := by
  induction lines generalizing t with
  | nil => exact hopen
  | cons line lines ih => exact ih (isOpen_step_line hopen moment line)

theorem waiter?_hear (hinv : t.Inv n) (hopen : t.connection.isOpen = true) (hw : t.waiter? id = some w)
    (moment : Timestamp) (lines : List String) :
    (t.hear moment lines).waiter? id =
      some (match Client.reply? id (t.connection.receiveAll lines).1 with
        | some r => w.deliver (.reply r)
        | none => w) := by
  induction lines generalizing t w with
  | nil => exact hw
  | cons line lines ih =>
    have hnumber := number_of_waiter? hw
    have hstep := hinv.line moment line
    have hopen' := isOpen_step_line hopen moment line
    have hconnection := connection_step_line hopen moment line
    -- where the line is no reply to the request, the others decide
    have hpass : (t.step (.line moment line)).waiter? id = some w →
        Client.reply? id (t.connection.receive line).1 = none →
        (t.hear moment (line :: lines)).waiter? id =
          some (match Client.reply? id (t.connection.receiveAll (line :: lines)).1 with
            | some r => w.deliver (.reply r)
            | none => w) := by
      intro hsame hnone
      rw [hear_cons, ih hstep hopen' hsame, hconnection, Connection.receiveAll_cons,
        Client.reply?_append, hnone, Option.none_or]
    rcases hread : Message.read? line with _ | (r | e)
    · refine hpass (by rw [step_line_none hread, hw]) ?_
      rw [Connection.receive_none hread]
      rfl
    · have hview := waiter?_line_reply hinv.nodup hopen hread moment id
      rw [hw, Option.map_some, hnumber] at hview
      by_cases hanswers : id = r.id ∧ t.connection.Awaits id
      · obtain ⟨rfl, hawaits⟩ := hanswers
        rw [if_pos ⟨rfl, hawaits⟩] at hview
        have hgone : ¬(t.connection.receive line).2.Awaits r.id := by
          rw [Connection.receive_reply hinv.nodup hread]
          exact fun h => (Connection.awaits_without.mp h).2 rfl
        have hreply : Client.reply? r.id (t.connection.receive line).1 = some r := by
          rw [Connection.receive_reply hinv.nodup hread, if_pos hawaits, Client.reply?_answered,
            if_pos rfl]
        rw [hear_cons, ih hstep hopen' hview, hconnection, Connection.receiveAll_cons,
          Client.reply?_append, hreply, Client.reply?_receiveAll_of_not_awaits hgone, Option.some_or]
      · rw [if_neg hanswers] at hview
        refine hpass hview ?_
        rw [Connection.receive_reply hinv.nodup hread]
        by_cases hawaits : t.connection.Awaits r.id
        · have hid : r.id ≠ id := fun hid => hanswers ⟨hid.symm, hid ▸ hawaits⟩
          rw [if_pos hawaits, Client.reply?_answered, if_neg hid]
        · rw [if_neg hawaits]
          rfl
    · refine hpass (by rw [step_line_response hopen hread]; exact hw) ?_
      rw [Connection.receive_response hread]
      cases t.connection.sink <;> rfl

theorem logs_hear (hopen : t.connection.isOpen = true) (moment : Timestamp) (lines : List String)
    (k : Nat) : ((t.hear moment lines).logs k).entries = (t.logs k).entries ++
      if t.connection.sink = some k then
        (Client.noted (t.connection.receiveAll lines).1).map (⟨·, moment⟩) else [] := by
  induction lines generalizing t with
  | nil => simp [hear, Connection.receiveAll, Client.noted]
  | cons line lines ih =>
    have hfirst : (if t.connection.sink = some k then
          (Client.noted (t.connection.receive line).1).map (⟨·, moment⟩) else []) =
        (if t.connection.sink = some k ∧ t.connection.isOpen = true then
          (Move.line moment line).response? else none).toList := by
      rw [Client.noted_receive, hopen]
      by_cases hsink : t.connection.sink = some k
      · rcases hread : Message.read? line with _ | (r | e) <;> simp [hsink, Move.response?, hread]
      · simp [hsink]
    rw [hear_cons, ih (isOpen_step_line hopen moment line), logs_step, connection_step_line hopen,
      (Connection.receive_frame _ line).2, ← hfirst, Connection.receiveAll_cons, Client.noted_append,
      List.append_assoc]
    split
    · rw [List.map_append]
    · rfl

end Traffic

/-! ## The end of a request -/

/-- What the one who waits learns of what has been delivered, once the time is over. -/
def Waiter.outcome (w : Waiter) : Except BrowserError Json :=
  match w.inbox with
  | .empty => .error (.timeout w.request.command w.limit)
  | .reply r => r.result w.request.command w.limit
  | .closed => .error .disconnected

namespace Traffic

variable {t : Traffic} {id n : Nat} {w : Waiter}

theorem start_write (hinv : t.Inv n) (hn : n + 1 < numbers) (command : String) (args : Json)
    (wait : Nat) (done : Bool) :
    let t' := (t.step (.start command args wait)).step (.turn (n + 1) (.write done))
    t'.Inv (n + 1) ∧ t'.connection = (Turn.write done).settle (n + 1) t.connection.start.2 ∧
      t'.logs = t.logs ∧ t'.waiter? (n + 1) = some {
        request := ⟨n + 1, command, args⟩
        limit := wait
        stage := if done then .written else .over .disconnected } := by
  have hnext : t.connection.nextId = n + 1 := by rw [hinv.nextId, Nat.mod_eq_of_lt hn]
  have hview : (t.step (.start command args wait)).waiter? (n + 1) =
      some { request := ⟨n + 1, command, args⟩, limit := wait } := by
    rw [waiter?_start, hnext, hinv.waiter?_eq_none (Nat.lt_succ_self n), if_pos rfl, Option.none_or]
  refine ⟨(hinv.start hn command args wait).turn _ _, ?_, ?_, waiter?_turn hview _⟩
  · rw [step_turn hview rfl]
    rfl
  · rw [step_turn hview rfl]
    rfl

/-- The end of the helper, or nothing. -/
def finishIf (gone : Bool) (moment : Timestamp) : List Move :=
  if gone then [.finish moment] else []

theorem Inv.finishIf (h : t.Inv n) (gone : Bool) (moment : Timestamp) :
    ((Traffic.finishIf gone moment).foldl Traffic.step t).Inv n := by
  cases gone with
  | true => exact h.finish moment
  | false => exact h

theorem foldl_finishIf (hinv : t.Inv n) (hopen : t.connection.isOpen = true)
    (hw : t.waiter? id = some w) (gone : Bool) (moment : Timestamp) :
    let t' := (Traffic.finishIf gone moment).foldl step t
    t'.connection = (if gone then t.connection.finish.2 else t.connection) ∧ t'.logs = t.logs ∧
      t'.waiter? id = some (if gone ∧ w.waits = true then w.deliver .closed else w) := by
  cases gone with
  | false => exact ⟨rfl, rfl, hw⟩
  | true =>
    have hawaits : t.connection.Awaits w.number ↔ w.waits = true := by
      rw [hinv.awaits_iff, number_of_waiter? hw, hw, Option.any_some]
    intro t'
    have ht' : t' = t.step (.finish moment) := rfl
    rw [ht', waiter?_finish hopen, step_finish hopen, hw, Option.map_some]
    simp only [hawaits, true_and, if_true, and_self]

theorem collect_expire (hw : t.waiter? id = some w) (hstage : w.stage = .written) :
    let t' := (t.step (.turn id .collect)).step (.turn id .expire)
    t'.connection = (match w.inbox with | .empty => t.connection.expire id | _ => t.connection) ∧
      t'.logs = t.logs ∧ (t'.waiter? id).bind (·.result?) = some w.outcome := by
  have hview := waiter?_turn (waiter?_turn hw .collect) .expire
  obtain ⟨request, limit, stage, inbox⟩ := w
  obtain rfl : stage = .written := hstage
  intro t'
  rw [hview]
  cases inbox with
  | empty =>
    have ht' : t' = _ := (congrArg (Traffic.step · (.turn id .expire)) (step_turn_none hw rfl)).trans
      (step_turn hw rfl)
    rw [ht']
    exact ⟨rfl, rfl, rfl⟩
  | _ =>
    have ht' : t' = _ := (step_turn_none (waiter?_turn hw .collect) rfl).trans (step_turn hw rfl)
    rw [ht']
    exact ⟨rfl, rfl, rfl⟩

theorem exchange (hinv : t.Inv n) (hopen : t.connection.isOpen = true) (hw : t.waiter? id = some w)
    (hstage : w.stage = .written) (hinbox : w.inbox = .empty) (moment : Timestamp)
    (lines : List String) (gone : Bool) :
    let x := t.connection.receiveAll lines
    let ending := Traffic.finishIf gone moment ++ [Move.turn id .collect, Move.turn id .expire]
    let t' := ending.foldl step (t.hear moment lines)
    t'.Inv n ∧
      t'.connection = (if gone then x.2.finish.2 else
        match Client.reply? id x.1 with | some _ => x.2 | none => x.2.expire id) ∧
      (t'.waiter? id).bind (·.result?) = some (match Client.reply? id x.1 with
        | some r => r.result w.request.command w.limit
        | none => if gone then .error .disconnected else .error (.timeout w.request.command w.limit)) ∧
      t'.logs = (t.hear moment lines).logs := by
  intro x ending t'
  have hheard := waiter?_hear hinv hopen hw moment lines
  have hopen' := isOpen_hear hopen moment lines
  have hinv' := hinv.hear moment lines
  have hconnection := connection_hear hopen moment lines
  obtain ⟨hfinish, hlogs, hw'⟩ := foldl_finishIf hinv' hopen' hheard gone moment
  have hend : t' = (((Traffic.finishIf gone moment).foldl step (t.hear moment lines)).step
      (.turn id .collect)).step (.turn id .expire) := by
    simp only [t', ending, List.foldl_append, List.foldl_cons, List.foldl_nil]
  have hwaits : w.waits = true := by
    rw [Waiter.waits, hstage, hinbox]
  rw [hend]
  refine ⟨((hinv'.finishIf gone moment).turn id .collect).turn id .expire, ?_⟩
  generalize (Traffic.finishIf gone moment).foldl step (t.hear moment lines) = t₁ at hfinish hlogs hw'
  rw [hconnection] at hfinish
  cases hreply : Client.reply? id x.1 with
  | some r =>
    simp only [x, hreply, Waiter.waits_deliver_reply, Bool.false_eq_true, and_false, if_false] at hw'
    obtain ⟨hconnection', hlogs', hresult⟩ := collect_expire hw' hstage
    exact ⟨hconnection'.trans hfinish, hresult, hlogs'.trans hlogs⟩
  | none =>
    simp only [x, hreply, hwaits, and_true] at hw'
    cases gone with
    | true =>
      obtain ⟨hconnection', hlogs', hresult⟩ := collect_expire hw' hstage
      exact ⟨hconnection'.trans hfinish, hresult, hlogs'.trans hlogs⟩
    | false =>
      obtain ⟨hconnection', hlogs', hresult⟩ := collect_expire hw' hstage
      simp only [Bool.false_eq_true, if_false, hinbox, Waiter.outcome] at hconnection' hresult
      have hexpired := hconnection'.trans (congrArg (Connection.expire · id) hfinish)
      exact ⟨hexpired, hresult, hlogs'.trans hlogs⟩

end Traffic

/-! ## Calls -/

namespace Client

variable {σ : Type} {t : Traffic} {n : Nat} {c : Client σ}

/-- What happens on the connection in a call. -/
def moves (h : Helper σ) (command : String) (args : Json) (wait : Nat) (moment : Timestamp)
    (c : Client σ) : List Move :=
  let id := c.connection.nextId
  .start command args wait :: match c.helper with
    | none => [.turn id (.write false)]
    | some state =>
      let (written, state) := h.react state ⟨id, command, args⟩
      .turn id (.write true) :: (linesOf written).map (.line moment) ++
        Traffic.finishIf state.isNone moment ++ [.turn id .collect, .turn id .expire]

/-- The client is at the end of a connection on which so many requests have been made. -/
structure Follows (t : Traffic) (n : Nat) (c : Client σ) : Prop where
  inv : t.Inv n
  connection : t.connection = c.connection
  isOpen : c.helper.isSome = true → c.connection.isOpen = true

/-- What a call brings about is what its moves bring about. -/
structure Sent.Follows (t t' : Traffic) (moment : Timestamp) (n : Nat) (sent : Sent σ) : Prop where
  client : Client.Follows t' n sent.client
  result : (t'.waiter? n).bind (·.result?) = some sent.result
  logs : ∀ k, (t'.logs k).entries = (t.logs k).entries ++
    if t.connection.sink = some k then sent.responses.map (⟨·, moment⟩) else []

theorem Follows.send (hc : c.Follows t n) (hn : n + 1 < numbers) (h : Helper σ) (command : String)
    (args : Json) (wait : Nat) (moment : Timestamp) :
    (c.send h command args wait).Follows t
      ((c.moves h command args wait moment).foldl Traffic.step t) moment (n + 1) := by
  obtain ⟨connection, helper, requests⟩ := c
  obtain ⟨hinv, hconnection, hopen⟩ := hc
  obtain rfl : t.connection = connection := hconnection
  have hnext : t.connection.nextId = n + 1 := by rw [hinv.nextId, Nat.mod_eq_of_lt hn]
  have hstart : t.connection.start = (n + 1, t.connection.start.2) := by
    rw [← hnext]
    rfl
  rcases helper with _ | state
  · obtain ⟨hinv', hconnection', hlogs', hresult⟩ :=
      Traffic.start_write hinv hn command args wait false
    simp only [moves, hnext, List.foldl_cons, List.foldl_nil, Client.send]
    rw [hstart]
    refine ⟨⟨hinv', hconnection', fun h => absurd h Bool.false_ne_true⟩, ?_, fun k => ?_⟩
    · rw [hresult]
      rfl
    · simp [hlogs']
  · obtain ⟨hinv₁, hconnection₁, hlogs₁, hwritten⟩ :=
      Traffic.start_write hinv hn command args wait true
    rcases hreact : h.react state ⟨n + 1, command, args⟩ with ⟨written, state'⟩
    simp only [moves, hnext, hreact, List.foldl_cons, List.cons_append, List.foldl_append,
      List.append_assoc, Client.send]
    rw [hstart]
    simp only [hreact]
    generalize (t.step (.start command args wait)).step (.turn (n + 1) (.write true)) = t₁ at *
    have hopen₁ : t₁.connection.isOpen = true := by
      rw [hconnection₁]
      exact hopen rfl
    have hheard := Traffic.logs_hear hopen₁ moment (linesOf written)
    have hopen₂ := Traffic.isOpen_hear hopen₁ moment (linesOf written)
    rw [Traffic.connection_hear hopen₁] at hopen₂
    obtain ⟨hinv', hconnection', hresult', hlogs'⟩ :=
      Traffic.exchange hinv₁ hopen₁ hwritten rfl rfl moment (linesOf written) state'.isNone
    simp only [List.foldl_append] at hinv' hconnection' hresult' hlogs'
    have hlogs (k : Nat) := (congrArg (fun logs => (logs k).entries) hlogs').trans (hheard k)
    rw [hlogs₁] at hlogs
    rw [hconnection₁] at hlogs hconnection' hresult' hopen₂
    simp only [Turn.settle] at hlogs hconnection' hresult' hopen₂
    cases state' with
    | none =>
      cases hreply : reply? (n + 1) (t.connection.start.2.receiveAll (linesOf written)).1 <;>
        simp only [hreply] at hconnection' hresult' ⊢ <;>
        exact ⟨⟨hinv', hconnection', fun h => absurd h Bool.false_ne_true⟩, hresult', hlogs⟩
    | some state' =>
      cases hreply : reply? (n + 1) (t.connection.start.2.receiveAll (linesOf written)).1 <;>
        simp only [hreply] at hconnection' hresult' ⊢ <;>
        exact ⟨⟨hinv', hconnection', fun _ => hopen₂⟩, hresult', hlogs⟩

/-- A request: its command, its arguments, and how long the reply is waited for. -/
abbrev Asked := String × Json × Nat

/-- The client after requests one after another. -/
def sendAll (h : Helper σ) : List Asked → Client σ → Client σ
  | [], c => c
  | (command, args, wait) :: asked, c => sendAll h asked (c.send h command args wait).client

def allMoves (h : Helper σ) (moment : Timestamp) : List Asked → Client σ → List Move
  | [], _ => []
  | (command, args, wait) :: asked, c =>
    c.moves h command args wait moment ++
      allMoves h moment asked (c.send h command args wait).client

/-- So a client is at the end of its connection after any requests, as long as there are numbers left. -/
theorem Follows.sendAll {asked : List Asked} (hc : c.Follows t n) (hn : n + asked.length < numbers)
    (h : Helper σ) (moment : Timestamp) :
    (c.sendAll h asked).Follows ((c.allMoves h moment asked).foldl Traffic.step t)
      (n + asked.length) := by
  induction asked generalizing t n c with
  | nil => exact hc
  | cons call asked ih =>
    obtain ⟨command, args, wait⟩ := call
    rw [List.length_cons] at hn ⊢
    have hsend := (hc.send (by omega) h command args wait moment).client
    rw [Client.sendAll, allMoves, List.foldl_append, Nat.add_comm asked.length, ← Nat.add_assoc]
    exact ih hsend (by omega)

theorem follows_new (helper : Option σ) : Follows {} 0 { helper } where
  inv := Traffic.inv_init
  connection := rfl
  isOpen _ := rfl

end Client

end PlainSteps.Bridge
