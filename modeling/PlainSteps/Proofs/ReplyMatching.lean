import PlainSteps.Proofs.TrafficSteps

/-!
# Which request a reply goes to

`Traffic.replies_match`: whatever requests are made and given up, and whatever lines come, in any order,
a request is only ever answered by the first reply with its number that comes while it is pending. Other
replies and lines change nothing for those who wait, and at the end all of them learn that the helper is
gone.

Where a waiter has a reply, the reply came in a line with its number while it was awaited
(`Traffic.reply_origin`, by induction on the moves). A number is pending from its request on until the
first reply to it, or until the time for it is over, and is never pending again
(`Traffic.not_mem_ids_run`), since numbers are not used twice. So no reply to it had come before.
-/

namespace PlainSteps.Bridge

/-! ## Where a reply comes from -/

/-- The one who waits has a reply. -/
def Waiter.Answered (w : Waiter) (r : Reply) : Prop :=
  w.inbox = .reply r ∨ w.stage = .over (.replied r)

theorem Waiter.answered_of_take? {w v : Waiter} {x : Turn} {r : Reply} (h : w.take? x = some v)
    (hv : v.Answered r) : w.Answered r := by
  unfold Answered at hv ⊢
  obtain ⟨request, limit, stage, inbox⟩ := w
  cases x with
  | write done =>
    rcases stage with _ | _ | e <;> cases h
    cases done <;> simpa using hv
  | collect =>
    rcases stage with _ | _ | e <;> rcases inbox with _ | r' | _ <;> cases h
    · simpa using hv
    · simp at hv
  | expire =>
    rcases stage with _ | _ | e <;> rcases inbox with _ | r' | _ <;> cases h
    simp at hv
  | drop => rcases stage with _ | _ | e <;> cases h <;> simpa using hv

namespace Traffic

/-- After these moves a line is a reply to the request with a number, and is awaited. -/
structure Answer (before : List Move) (text : String) (id : Nat) (r : Reply) : Prop where
  read : Message.read? text = some (.reply r)
  number : r.id = id
  isOpen : ended before = false
  awaited : (run before).connection.Awaits id

variable {t : Traffic} {n id : Nat} {w v : Waiter} {m : Move} {r : Reply} {moves more : List Move}

theorem mem_waiters_put (h : v ∈ (t.put w).waiters) : v ∈ t.waiters ∨ v = w := by
  obtain ⟨u, hu, rfl⟩ := List.mem_map.mp h
  split
  · exact .inr rfl
  · exact .inl hu

theorem answered_absorb {moment : Timestamp} {e : Effect} (h : v ∈ (t.absorb moment e).waiters)
    (hv : v.Answered r) :
    (∃ w ∈ t.waiters, w.number = v.number ∧ w.Answered r) ∨ e = .answered r ∧ r.id = v.number := by
  cases e with
  | noted log e => exact .inl ⟨v, h, rfl, hv⟩
  | answered r' =>
    obtain ⟨w, hw, rfl⟩ := List.mem_map.mp h
    split at hv
    · rcases hv with hv | hv
      · obtain rfl : r' = r := by simpa [Waiter.deliver] using hv
        exact .inr ⟨rfl, by rw [if_pos (by assumption)]; exact Eq.symm (by assumption)⟩
      · exact .inl ⟨w, hw, by rw [if_pos (by assumption)]; rfl, .inr hv⟩
    · exact .inl ⟨w, hw, by rw [if_neg (by assumption)], hv⟩
  | disconnected id =>
    obtain ⟨w, hw, rfl⟩ := List.mem_map.mp h
    split at hv
    · rcases hv with hv | hv
      · simp [Waiter.deliver] at hv
      · exact .inl ⟨w, hw, by rw [if_pos (by assumption)]; rfl, .inr hv⟩
    · exact .inl ⟨w, hw, by rw [if_neg (by assumption)], hv⟩

theorem answered_absorbAll {moment : Timestamp} {effects : List Effect}
    (h : v ∈ (effects.foldl (absorb moment) t).waiters) (hv : v.Answered r) :
    (∃ w ∈ t.waiters, w.number = v.number ∧ w.Answered r) ∨
      .answered r ∈ effects ∧ r.id = v.number := by
  induction effects generalizing t with
  | nil => exact .inl ⟨v, h, rfl, hv⟩
  | cons e effects ih =>
    rcases ih h with ⟨w, hw, hnumber, hr⟩ | ⟨hmem, hid⟩
    · rcases answered_absorb hw hr with ⟨u, hu, hnumber', hr'⟩ | ⟨rfl, hid⟩
      · exact .inl ⟨u, hu, hnumber'.trans hnumber, hr'⟩
      · exact .inr ⟨List.mem_cons_self, hid.trans hnumber⟩
    · exact .inr ⟨List.mem_cons_of_mem _ hmem, hid⟩

theorem answered_step (h : v ∈ (t.step m).waiters) (hv : v.Answered r) :
    (∃ w ∈ t.waiters, w.number = v.number ∧ w.Answered r) ∨
      ∃ moment text, m = .line moment text ∧ t.connection.isOpen = true ∧
        Message.read? text = some (.reply r) ∧ r.id = v.number ∧ t.connection.Awaits v.number := by
  cases m with
  | start command arguments limit =>
    rcases List.mem_append.mp h with h | h
    · exact .inl ⟨v, h, rfl, hv⟩
    · obtain rfl := List.mem_singleton.mp h
      simp [Waiter.Answered] at hv
  | turn id x =>
    rcases step_turn_cases t id x with hsame | ⟨w, u, hw, hu, hturn⟩
    · exact .inl ⟨v, hsame ▸ h, rfl, hv⟩
    · rw [hturn] at h
      rcases mem_waiters_put h with h | rfl
      · exact .inl ⟨v, h, rfl, hv⟩
      · exact .inl ⟨w, mem_of_waiter? hw, (Waiter.number_take? hu).symm,
          Waiter.answered_of_take? hu hv⟩
  | line moment text =>
    simp only [step] at h
    split at h
    · rename_i hopen
      rcases answered_absorbAll h hv with hold | ⟨hmem, hid⟩
      · exact .inl hold
      · obtain ⟨hread, hawaits⟩ := Connection.awaits_of_answered hmem
        exact .inr ⟨moment, text, rfl, hopen, hread, hid, hid ▸ hawaits⟩
    · exact .inl ⟨v, h, rfl, hv⟩
  | finish moment =>
    simp only [step] at h
    split at h
    · rcases answered_absorbAll h hv with hold | ⟨hmem, -⟩
      · exact .inl hold
      · simp [Connection.finish] at hmem
    · exact .inl ⟨v, h, rfl, hv⟩
  | attach log => exact .inl ⟨v, h, rfl, hv⟩

/-- What a waiter has been answered with came in a line. -/
theorem reply_origin (hw : w ∈ (run moves).waiters) (hr : w.Answered r) :
    ∃ before moment text after, moves = before ++ .line moment text :: after ∧
      Answer before text w.number r := by
  induction moves using List.reverseRecOn generalizing w with
  | nil => exact absurd hw List.not_mem_nil
  | append_singleton moves m ih =>
    rw [run_concat] at hw
    rcases answered_step hw hr with
      ⟨u, hu, hnumber, hr'⟩ | ⟨moment, text, rfl, hopen, hread, hid, hawaits⟩
    · obtain ⟨before, moment, text, after, rfl, hanswer⟩ := ih hu hr'
      exact ⟨before, moment, text, after ++ [m], by simp, hnumber ▸ hanswer⟩
    · rw [isOpen_run, Bool.not_eq_true'] at hopen
      exact ⟨moves, moment, text, [], rfl, hread, hid, hopen, hawaits⟩

/-! ## Numbers that are not pending any more -/

theorem ids_step (hnodup : t.connection.ids.Nodup) (hid : id ∈ (t.step m).connection.ids) :
    id ∈ t.connection.ids ∨ m.starts = 1 ∧ id = t.connection.nextId := by
  cases m with
  | start command arguments limit =>
    have hids : id ∈ t.connection.ids ++ [t.connection.nextId] := by
      simpa [step, Connection.start, Connection.ids] using hid
    rcases List.mem_append.mp hids with hid | hid
    · exact .inl hid
    · exact .inr ⟨rfl, List.mem_singleton.mp hid⟩
  | turn id' x =>
    rcases step_turn_cases t id' x with hsame | ⟨w, v, -, -, hturn⟩
    · exact .inl (hsame ▸ hid)
    · rw [hturn] at hid
      exact .inl ((Turn.ids_settle x id' _).subset hid)
  | line moment text =>
    rcases step_line_cases t moment text with hsame | ⟨hopen, ⟨r, hread⟩ | ⟨e, hread⟩⟩
    · exact .inl (hsame ▸ hid)
    · rw [step_line_reply hnodup hopen hread, Connection.ids_without] at hid
      exact .inl (List.mem_of_mem_filter hid)
    · rw [step_line_response hopen hread] at hid
      exact .inl hid
  | finish moment =>
    rcases hopen : t.connection.isOpen with _ | _
    · exact .inl (step_finish_of_closed hopen moment ▸ hid)
    · rw [step_finish hopen] at hid
      exact absurd hid List.not_mem_nil
  | attach log => exact .inl hid

/-- A number that has been given and is not pending does not become pending again. -/
theorem not_mem_ids_run (h : starts (moves ++ more) < numbers) (hid : id ≤ starts moves)
    (hids : id ∉ (run moves).connection.ids) : id ∉ (run (moves ++ more)).connection.ids := by
  induction more using List.reverseRecOn with
  | nil => rwa [List.append_nil]
  | append_singleton more m ih =>
    rw [← List.append_assoc] at h ⊢
    rw [starts_append, starts_singleton] at h
    have hinv := run_inv (moves ++ more) (by omega)
    intro hmem
    rw [run_concat] at hmem
    rcases ids_step hinv.nodup hmem with hmem | ⟨hm, hmem⟩
    · exact ih (by omega) hmem
    · rw [hinv.nextId, Nat.mod_eq_of_lt (by omega), starts_append] at hmem
      omega

/-- Nor was there a reply to the request before, while it was pending. -/
structure FirstAnswer (before : List Move) (text : String) (id : Nat) (r : Reply) : Prop
    extends Answer before text id r where
  first : ∀ earlier moment text' later r', before = earlier ++ .line moment text' :: later →
    Message.read? text' = some (.reply r') → r'.id = id → id ∉ (run earlier).connection.ids

theorem Answer.first {before : List Move} {text : String} (h : Answer before text id r)
    (hcount : starts before < numbers) : FirstAnswer before text id r where
  toAnswer := h
  first := by
    rintro earlier moment text' later r' rfl hread rfl hearlier
    have hearlierCount := hcount
    rw [starts_append] at hearlierCount
    have hinv := run_inv earlier (by omega)
    have hopen : (run earlier).connection.isOpen = true := by
      have hended := h.isOpen
      rw [ended_append, Bool.or_eq_false_iff] at hended
      rw [isOpen_run, hended.1, Bool.not_false]
    -- that reply took the request off the pending ones, for good
    have hgone : r'.id ∉ (run (earlier ++ [.line moment text'])).connection.ids := by
      rw [run_concat, step_line_reply hinv.nodup hopen hread, Connection.ids_without]
      simp
    have hid := hinv.known r'.id hearlier
    have hpending := h.awaited.mem_ids
    rw [← List.singleton_append, ← List.append_assoc] at hcount hpending
    refine not_mem_ids_run hcount ?_ hgone hpending
    rw [starts_append]
    omega

end Traffic

/-! ## The end -/

namespace Waiter

/-- The one who waits can only learn that the helper is gone. -/
def Lost (w : Waiter) : Prop :=
  w.inbox = .closed ∧ ∀ e, w.stage = .over e → e = .disconnected ∨ e = .dropped

theorem lost_deliver_closed {w : Waiter} (h : w.waits = true) : (w.deliver .closed).Lost := by
  refine ⟨rfl, fun e he => ?_⟩
  obtain ⟨request, limit, stage, inbox⟩ := w
  obtain rfl : stage = .over e := he
  cases h

namespace Lost

variable {w v : Waiter}

theorem take? (h : w.Lost) {x : Turn} (hv : w.take? x = some v) : v.Lost := by
  obtain ⟨request, limit, stage, inbox⟩ := w
  obtain ⟨rfl, hstage⟩ := h
  cases x with
  | write done => rcases stage with _ | _ | e <;> cases hv; cases done <;> simp [Lost]
  | collect => rcases stage with _ | _ | e <;> cases hv; simp [Lost]
  | expire => rcases stage with _ | _ | e <;> cases hv
  | drop => rcases stage with _ | _ | e <;> cases hv <;> simp [Lost]

theorem next {c : Connection} {m : Move} (h : w.Lost) (hnext : w.Next c m v)
    (hclosed : c.isOpen = false) : v.Lost := by
  cases hnext with
  | same => exact h
  | turn hv => exact h.take? hv
  | answered _ hopen => exact absurd (hclosed.symm.trans hopen) Bool.false_ne_true
  | closed _ hopen => exact absurd (hclosed.symm.trans hopen) Bool.false_ne_true

theorem result?_collect (h : w.Lost) (hdropped : w.stage ≠ .over .dropped) (done : Bool) :
    let u := (w.take? (.write done)).getD w
    ((u.take? .collect).getD u).result? = some (.error .disconnected) := by
  obtain ⟨request, limit, stage, inbox⟩ := w
  obtain ⟨rfl, hstage⟩ := h
  rcases stage with _ | _ | e
  · cases done <;> rfl
  · rfl
  · rcases hstage e rfl with rfl | rfl
    · rfl
    · exact absurd rfl hdropped

end Lost

end Waiter

namespace Traffic

variable {t : Traffic} {n id : Nat} {w : Waiter} {moves more : List Move}

theorem lost_run (h : starts (moves ++ more) < numbers) (hended : ended moves = true)
    (hw : (run moves).waiter? id = some w) (hlost : w.Lost) :
    ∃ v, (run (moves ++ more)).waiter? id = some v ∧ v.Lost := by
  induction more using List.reverseRecOn with
  | nil => exact ⟨w, by rwa [List.append_nil], hlost⟩
  | append_singleton more m ih =>
    rw [← List.append_assoc] at h ⊢
    rw [starts_append, starts_singleton] at h
    obtain ⟨v, hv, hlost⟩ := ih (by omega)
    have hinv := run_inv (moves ++ more) (by omega)
    have hclosed : (run (moves ++ more)).connection.isOpen = false := by
      rw [isOpen_run, ended_append, hended, Bool.true_or, Bool.not_true]
    obtain ⟨u, hu, hnext⟩ := waiter?_step hinv.nodup hv m
    exact ⟨u, by rw [run_concat, hu], hlost.next hnext hclosed⟩

namespace Inv

theorem nodup_numbers (h : t.Inv n) : (t.waiters.map (·.number)).Nodup :=
  h.inTurn ▸ List.nodup_range'

theorem waiter?_of_mem (h : t.Inv n) (hw : w ∈ t.waiters) : t.waiter? w.number = some w := by
  rcases hfind : t.waiter? w.number with _ | v
  · simp only [waiter?, List.find?_eq_none, beq_iff_eq] at hfind
    exact absurd rfl (hfind w hw)
  · exact congrArg some (List.inj_on_of_nodup_map h.nodup_numbers (mem_of_waiter? hfind) hw
      (number_of_waiter? hfind))

theorem awaits_iff_of_mem (h : t.Inv n) (hw : w ∈ t.waiters) :
    t.connection.Awaits w.number ↔ w.waits = true := by
  rw [h.awaits_iff, h.waiter?_of_mem hw, Option.any_some]

theorem awaits_iff_exists (h : t.Inv n) :
    t.connection.Awaits id ↔ ∃ w ∈ t.waiters, w.number = id ∧ w.waits = true := by
  rw [h.awaits_iff]
  constructor
  · intro hany
    obtain ⟨w, hw, hwaits⟩ := (Option.any_eq_true _ _).mp hany
    exact ⟨w, mem_of_waiter? hw, number_of_waiter? hw, hwaits⟩
  · rintro ⟨w, hw, rfl, hwaits⟩
    rw [h.waiter?_of_mem hw, Option.any_some, hwaits]

theorem step_line_other (h : t.Inv n) {text : String}
    (hread : ∀ r, Message.read? text = some (.reply r) →
      ∀ w ∈ t.waiters, w.number = r.id → w.waits = false) (moment : Timestamp) :
    (t.step (.line moment text)).waiters = t.waiters ∧
      ∀ id, (t.step (.line moment text)).connection.Awaits id ↔ t.connection.Awaits id := by
  rcases step_line_cases t moment text with hsame | ⟨hopen, ⟨r, hmessage⟩ | ⟨e, hmessage⟩⟩
  · rw [hsame]
    exact ⟨rfl, fun id => Iff.rfl⟩
  · have hnot : ¬t.connection.Awaits r.id := by
      rw [h.awaits_iff_exists]
      rintro ⟨w, hw, hid, hwaits⟩
      exact absurd ((hread r hmessage w hw hid).symm.trans hwaits) Bool.false_ne_true
    have hnone : ∀ w : Waiter, ¬(w.number = r.id ∧ t.connection.Awaits w.number) :=
      fun w hw => hnot (hw.1 ▸ hw.2)
    rw [step_line_reply h.nodup hopen hmessage]
    refine ⟨?_, fun id => Connection.awaits_without.trans (and_iff_left_of_imp ?_)⟩
    · simp only [if_neg (hnone _), List.map_id']
    · rintro hawaits rfl
      exact hnot hawaits
  · rw [step_line_response hopen hmessage]
    exact ⟨rfl, fun id => Iff.rfl⟩

end Inv

theorem lost_after_finish {later : List Move} (moment : Timestamp) (hopen : ended moves = false)
    (hw : w ∈ (run moves).waiters) (hwaits : w.waits = true)
    (h : starts (moves ++ .finish moment :: later) < numbers) :
    ∃ v, (run (moves ++ .finish moment :: later)).waiter? w.number = some v ∧ v.Lost := by
  have hcount := h
  rw [starts_append] at hcount
  have hinv := run_inv moves (by omega)
  have hopen' : (run moves).connection.isOpen = true := by rw [isOpen_run, hopen, Bool.not_false]
  have hend : (run (moves ++ [.finish moment])).waiter? w.number = some (w.deliver .closed) := by
    rw [run_concat, waiter?_finish hopen', hinv.waiter?_of_mem hw, Option.map_some,
      if_pos ((hinv.awaits_iff_of_mem hw).mpr hwaits)]
  rw [← List.singleton_append, ← List.append_assoc] at h ⊢
  refine lost_run h ?_ hend (Waiter.lost_deliver_closed hwaits)
  rw [ended_append, Bool.or_eq_true_iff]
  exact .inr rfl

/-! ## Replies and requests -/

/-- Replies go to the requests that they answer. -/
structure RepliesMatch (moves : List Move) : Prop where
  /-- Every request has a number of its own. -/
  length : (run moves).waiters.length = starts moves
  nodup : ((run moves).waiters.map (·.number)).Nodup
  /-- A reply is awaited for those who wait, and for no one else. -/
  awaits_iff : ∀ id, (run moves).connection.Awaits id ↔
    ∃ w ∈ (run moves).waiters, w.number = id ∧ w.waits = true
  /-- A request that ends with a reply ends with the first that came with its number while it was
  pending. -/
  replied : ∀ w ∈ (run moves).waiters, ∀ r, w.stage = .over (.replied r) →
    ∃ before moment text after, moves = before ++ .line moment text :: after ∧
      FirstAnswer before text w.number r
  /-- A reply is delivered to the one waiter of its number, if that waits, and to no other. -/
  reply : ∀ moment text r, ended moves = false → Message.read? text = some (.reply r) →
    (run (moves ++ [.line moment text])).waiters = (run moves).waiters.map fun w =>
      if w.number = r.id ∧ w.waits = true then w.deliver (.reply r) else w
  /-- A line that is no reply to one who waits changes nothing for those who wait. -/
  other : ∀ moment text,
    (∀ r, Message.read? text = some (.reply r) →
      ∀ w ∈ (run moves).waiters, w.number = r.id → w.waits = false) →
    (run (moves ++ [.line moment text])).waiters = (run moves).waiters ∧
      ∀ id, (run (moves ++ [.line moment text])).connection.Awaits id ↔
        (run moves).connection.Awaits id
  /-- At the end nothing is pending any more, and all those who wait are told so. -/
  finish : ∀ moment, ended moves = false →
    (run (moves ++ [.finish moment])).connection.pending = [] ∧
      (run (moves ++ [.finish moment])).waiters = (run moves).waiters.map fun w =>
        if w.waits = true then w.deliver .closed else w
  /-- Whatever comes after the end, one who waited then can only end as disconnected, unless the reply
  is not wanted any more, and does so once the request is written, or could not be. -/
  disconnected : ∀ moment, ended moves = false → ∀ w ∈ (run moves).waiters, w.waits = true →
    ∀ later, starts (moves ++ .finish moment :: later) < numbers →
    ∃ v, (run (moves ++ .finish moment :: later)).waiter? w.number = some v ∧
      (∀ e, v.stage = .over e → e = .disconnected ∨ e = .dropped) ∧
      (v.stage ≠ .over .dropped → ∀ done, ∃ u,
        (run (moves ++ .finish moment :: later ++
          [.turn w.number (.write done), .turn w.number .collect])).waiter? w.number = some u ∧
        u.result? = some (.error .disconnected))

/-- However requests, lines and the end come about, replies go to the requests that they answer, as long
as there are numbers for all requests. -/
theorem replies_match (moves : List Move) (h : starts moves < numbers) : RepliesMatch moves := by
  have hinv := run_inv moves h
  have hopen : ended moves = false → (run moves).connection.isOpen = true := fun hended => by
    rw [isOpen_run, hended, Bool.not_false]
  constructor
  case length => rw [← List.length_map (·.number), hinv.inTurn, List.length_range']
  case nodup => exact hinv.nodup_numbers
  case awaits_iff => exact fun id => hinv.awaits_iff_exists
  case replied =>
    intro w hw r hr
    obtain ⟨before, moment, text, after, rfl, hanswer⟩ := reply_origin hw (.inr hr)
    rw [starts_append] at h
    exact ⟨before, moment, text, after, rfl, hanswer.first (by omega)⟩
  case reply =>
    intro moment text r hended hread
    rw [run_concat, step_line_reply hinv.nodup (hopen hended) hread]
    refine List.map_congr_left fun w hw => ?_
    simp only [hinv.awaits_iff_of_mem hw]
  case other =>
    intro moment text hread
    rw [run_concat]
    exact hinv.step_line_other hread moment
  case finish =>
    intro moment hended
    rw [run_concat, step_finish (hopen hended)]
    refine ⟨rfl, List.map_congr_left fun w hw => ?_⟩
    simp only [hinv.awaits_iff_of_mem hw]
  case disconnected =>
    intro moment hended w hw hwaits later hcount
    obtain ⟨v, hv, hlost⟩ := lost_after_finish moment hended hw hwaits hcount
    refine ⟨v, hv, hlost.2, fun hdropped done => ?_⟩
    have hwritten := waiter?_turn hv (.write done)
    rw [run_append, List.foldl_cons, List.foldl_cons, List.foldl_nil]
    exact ⟨_, waiter?_turn hwritten .collect, hlost.result?_collect hdropped done⟩

/-- A line that replies to the request with a number. -/
def replyLine (id : Nat) (value : String) : Move :=
  .line default
    (Json.object [("id", .nat id), ("ok", .bool true), ("value", .string value)]).compact

/-- The first request is given up before its reply comes. Then come no message at all, two replies to
the second, and a reply to a request that is not made; the third is under way at the end. -/
def crossed : List Move :=
  [.start "click" (.object []) 7000, .turn 1 (.write true),
    .start "read_text" (.object []) 7000, .turn 2 (.write true), .turn 1 .drop,
    replyLine 1 "late", .line default "garbage", replyLine 2 "first", replyLine 2 "second",
    .turn 2 .collect, .start "close" (.object []) 30000, replyLine 4 "early", .turn 3 (.write true),
    .finish default, .turn 3 .collect]

theorem replies_match_crossed : starts crossed < numbers ∧ RepliesMatch crossed ∧
    (run crossed).waiters.map (·.result?.map (·.map textOf)) =
      [none, some (.ok "first"), some (.error .disconnected)] :=
  ⟨by decide, replies_match crossed (by decide), by decide +kernel⟩

end Traffic

end PlainSteps.Bridge
