import Mathlib.Algebra.GroupWithZero.Nat
import Mathlib.Data.List.Induction
import Mathlib.Data.List.Nodup
import PlainSteps.Bridge.Traffic

/-!
# What a move does to a request

* `Connection.receive_reply` : a reply takes its request off the pending ones, and answers it if it is
  still awaited.
* `Waiter.Next` : all that a move can do to one who waits; `Traffic.waiter?_step` : a move does nothing
  else to those who wait.
* `Traffic.Inv` : requests are numbered in turn, and the pending ones that are awaited are those of the
  waiters that wait. `Traffic.run_inv` : so it is after any moves, as long as there are numbers left.
-/

namespace PlainSteps.Bridge

/-! ## Connections -/

namespace Connection

/-- The numbers of the pending requests. -/
def ids (c : Connection) : List Nat :=
  c.pending.map (·.id)

/-- A reply to the request is awaited. -/
def Awaits (c : Connection) (id : Nat) : Prop :=
  ⟨id, true⟩ ∈ c.pending

instance (c : Connection) (id : Nat) : Decidable (c.Awaits id) :=
  inferInstanceAs (Decidable (_ ∈ _))

variable {c : Connection} {id id' : Nat}

theorem Awaits.mem_ids (h : c.Awaits id) : id ∈ c.ids :=
  List.mem_map_of_mem h

theorem ids_without (c : Connection) (id : Nat) : (c.without id).ids = c.ids.filter (· != id) := by
  simp only [ids, without, List.filter_map]
  rfl

theorem without_of_not_mem (h : id ∉ c.ids) : c.without id = c := by
  have hall : ∀ p ∈ c.pending, (p.id != id) = true := by
    intro p hp
    simp only [bne_iff_ne]
    exact fun heq => h (heq ▸ List.mem_map_of_mem hp)
  rw [without, List.filter_eq_self.mpr hall]

theorem awaits_without : (c.without id).Awaits id' ↔ c.Awaits id' ∧ id' ≠ id := by
  simp [Awaits, without]

theorem ids_abandon (c : Connection) (id : Nat) : (c.abandon id).ids = c.ids := by
  simp only [ids, abandon, List.map_map]
  refine List.map_congr_left fun p _ => ?_
  simp only [Function.comp]
  split <;> rfl

theorem awaits_abandon : (c.abandon id).Awaits id' ↔ c.Awaits id' ∧ id' ≠ id := by
  simp only [Awaits, abandon, List.mem_map]
  constructor
  · rintro ⟨p, hp, h⟩
    split at h
    · cases h
    · subst h
      exact ⟨hp, by assumption⟩
  · rintro ⟨hp, hne⟩
    exact ⟨_, hp, if_neg hne⟩

theorem receive_reply {text : String} {r : Reply} (hnodup : c.ids.Nodup)
    (h : Message.read? text = some (.reply r)) :
    c.receive text = (if c.Awaits r.id then [.answered r] else [], c.without r.id) := by
  simp only [receive, h, route]
  rcases hfind : c.pending.find? (·.id == r.id) with _ | ⟨id, awaited⟩
  · have hnot : r.id ∉ c.ids := by simpa [ids] using hfind
    have hawaits : ¬c.Awaits r.id := fun hawaits => hnot hawaits.mem_ids
    simp only [hfind, without_of_not_mem hnot, if_neg hawaits]
  · obtain rfl : id = r.id := by simpa using List.find?_some hfind
    have hmem := List.mem_of_find?_eq_some hfind
    cases awaited with
    | true =>
      have hawaits : c.Awaits r.id := hmem
      simp only [hfind, if_true, if_pos hawaits]
    | false =>
      have hnot : ¬c.Awaits r.id := by
        intro hawaits
        cases List.inj_on_of_nodup_map hnodup hawaits hmem rfl
      simp only [hfind, if_neg hnot, Bool.false_eq_true, if_false]

theorem receive_response {text : String} {e : Exchange}
    (h : Message.read? text = some (.response e)) :
    c.receive text = ((c.sink.map (Effect.noted · e)).toList, c) := by
  simp only [receive, h, route]
  cases c.sink <;> rfl

theorem receive_none {text : String} (h : Message.read? text = none) : c.receive text = ([], c) := by
  simp only [receive, h]

theorem effect_of_reply {text : String} {r : Reply} {e : Effect}
    (hread : Message.read? text = some (.reply r)) (h : e ∈ (c.receive text).1) :
    e = .answered r ∧ c.Awaits r.id := by
  simp only [receive, hread, route] at h
  rcases hfind : c.pending.find? (·.id == r.id) with _ | ⟨id, awaited⟩
  · simp [hfind] at h
  · obtain rfl : id = r.id := by simpa using List.find?_some hfind
    cases awaited with
    | true => exact ⟨by simpa [hfind] using h, List.mem_of_find?_eq_some hfind⟩
    | false => simp [hfind] at h

theorem awaits_of_answered {text : String} {r : Reply} (h : .answered r ∈ (c.receive text).1) :
    Message.read? text = some (.reply r) ∧ c.Awaits r.id := by
  rcases hread : Message.read? text with _ | (r' | e)
  · simp [receive_none hread] at h
  · obtain ⟨heq, hawaits⟩ := effect_of_reply hread h
    cases heq
    exact ⟨rfl, hawaits⟩
  · simp [receive_response hread] at h

theorem receive_frame (c : Connection) (text : String) :
    (c.receive text).2.isOpen = c.isOpen ∧ (c.receive text).2.sink = c.sink := by
  rcases hread : Message.read? text with _ | (r | e)
  · rw [receive_none hread]
    exact ⟨rfl, rfl⟩
  · simp only [receive, hread, route]
    cases c.pending.find? (·.id == r.id) <;> exact ⟨rfl, rfl⟩
  · rw [receive_response hread]
    exact ⟨rfl, rfl⟩

end Connection

/-! ## Turns -/

namespace Turn

variable {c : Connection} {id id' : Nat} {x : Turn}

theorem nextId_settle (x : Turn) (id : Nat) (c : Connection) : (x.settle id c).nextId = c.nextId := by
  rcases x with ⟨⟨⟩⟩ | _ | _ | _ <;> rfl

theorem ids_settle (x : Turn) (id : Nat) (c : Connection) : (x.settle id c).ids.Sublist c.ids := by
  have hwithout : (c.without id).ids.Sublist c.ids := by
    rw [Connection.ids_without]
    exact List.filter_sublist
  rcases x with ⟨⟨⟩⟩ | _ | _ | _
  · exact hwithout
  · exact List.Sublist.refl _
  · exact List.Sublist.refl _
  · exact hwithout
  · exact (Connection.ids_abandon c id).symm ▸ List.Sublist.refl _

theorem settle_frame (x : Turn) (id : Nat) (c : Connection) :
    (x.settle id c).isOpen = c.isOpen ∧ (x.settle id c).sink = c.sink := by
  rcases x with ⟨⟨⟩⟩ | _ | _ | _ <;> exact ⟨rfl, rfl⟩

theorem awaits_settle_of_ne (h : id' ≠ id) : (x.settle id c).Awaits id' ↔ c.Awaits id' := by
  rcases x with ⟨⟨⟩⟩ | _ | _ | _
  · exact Connection.awaits_without.trans (and_iff_left h)
  · exact Iff.rfl
  · exact Iff.rfl
  · exact Connection.awaits_without.trans (and_iff_left h)
  · exact Connection.awaits_abandon.trans (and_iff_left h)

theorem awaits_of_settle (h : (x.settle id c).Awaits id') : c.Awaits id' := by
  rcases x with ⟨⟨⟩⟩ | _ | _ | _
  · exact (Connection.awaits_without.mp h).1
  · exact h
  · exact h
  · exact (Connection.awaits_without.mp h).1
  · exact (Connection.awaits_abandon.mp h).1

end Turn

/-! ## Waiters -/

namespace Waiter

/-- Nothing has been delivered so far, and what is delivered will be taken. -/
def waits (w : Waiter) : Bool :=
  match w.stage, w.inbox with
  | .over _, _ => false
  | _, .empty => true
  | _, _ => false

theorem number_take? {w v : Waiter} {x : Turn} (h : w.take? x = some v) : v.number = w.number := by
  unfold take? at h
  split at h <;> split at h <;> cases h <;> rfl

@[simp] theorem waits_deliver_reply (w : Waiter) (r : Reply) : (w.deliver (.reply r)).waits = false := by
  simp only [waits, deliver]
  split <;> simp_all

@[simp] theorem waits_deliver_closed (w : Waiter) : (w.deliver .closed).waits = false := by
  simp only [waits, deliver]
  split <;> simp_all

theorem awaits_settle {w v : Waiter} {x : Turn} {c : Connection} {id : Nat} (h : w.take? x = some v)
    (hw : c.Awaits id ↔ w.waits = true) : (x.settle id c).Awaits id ↔ v.waits = true := by
  obtain ⟨request, limit, stage, inbox⟩ := w
  have hexpired : ¬(c.expire id).Awaits id := fun h => (Connection.awaits_without.mp h).2 rfl
  have habandoned : ¬(c.abandon id).Awaits id := fun h => (Connection.awaits_abandon.mp h).2 rfl
  cases x with
  | write done =>
    rcases stage with _ | _ | e <;> cases h
    cases done with
    | true => exact hw.trans (by cases inbox <;> exact Iff.rfl)
    | false => exact iff_of_false hexpired Bool.false_ne_true
  | collect =>
    -- what has been delivered is not awaited any more
    have hdone : ¬c.Awaits id := by
      rw [hw]
      rcases stage with _ | _ | e <;> rcases inbox with _ | r | _ <;> cases h <;>
        exact Bool.false_ne_true
    rcases stage with _ | _ | e <;> rcases inbox with _ | r | _ <;> cases h <;>
      exact iff_of_false hdone Bool.false_ne_true
  | expire =>
    rcases stage with _ | _ | e <;> rcases inbox with _ | r | _ <;> cases h
    exact iff_of_false hexpired Bool.false_ne_true
  | drop =>
    rcases stage with _ | _ | e <;> cases h <;> exact iff_of_false habandoned Bool.false_ne_true

/-- All that a move can do to a waiter, by the connection before it. -/
inductive Next (c : Connection) : Move → Waiter → Waiter → Prop
  | same (m : Move) (w : Waiter) : Next c m w w
  | turn {w v : Waiter} {x : Turn} (h : w.take? x = some v) : Next c (.turn w.number x) w v
  | answered {w : Waiter} {text : String} {r : Reply} (moment : Timestamp) (hopen : c.isOpen = true)
    (hread : Message.read? text = some (.reply r)) (hid : r.id = w.number)
    (hawaits : c.Awaits w.number) : Next c (.line moment text) w (w.deliver (.reply r))
  | closed {w : Waiter} (moment : Timestamp) (hopen : c.isOpen = true)
    (hawaits : c.Awaits w.number) : Next c (.finish moment) w (w.deliver .closed)

end Waiter

namespace Traffic

variable {t : Traffic} {id : Nat} {w v : Waiter} {m : Move}

theorem number_of_waiter? (h : t.waiter? id = some w) : w.number = id := by
  simpa using List.find?_some h

theorem mem_of_waiter? (h : t.waiter? id = some w) : w ∈ t.waiters :=
  List.mem_of_find?_eq_some h

theorem find?_map_number {f : Waiter → Waiter} (hf : ∀ w, (f w).number = w.number)
    (ws : List Waiter) (id : Nat) :
    (ws.map f).find? (·.number == id) = (ws.find? (·.number == id)).map f := by
  rw [List.find?_map]
  congr 2
  funext w
  simp [hf]

theorem waiter?_put (t : Traffic) (w : Waiter) (id : Nat) :
    (t.put w).waiter? id = (t.waiter? id).map fun v => if v.number = w.number then w else v := by
  refine find?_map_number (fun v => ?_) _ _
  split
  · exact Eq.symm (by assumption)
  · rfl

theorem absorbAll_connection (moment : Timestamp) (effects : List Effect) (t : Traffic)
    (c : Connection) : effects.foldl (absorb moment) { t with connection := c } =
      { effects.foldl (absorb moment) t with connection := c } := by
  induction effects generalizing t with
  | nil => rfl
  | cons e effects ih =>
    rw [List.foldl_cons, List.foldl_cons, ← ih]
    cases e <;> rfl

@[simp] theorem connection_after (t : Traffic) (moment : Timestamp) (x : List Effect × Connection) :
    (t.after moment x).connection = x.2 := by
  rw [after, absorbAll_connection]

theorem foldl_disconnected (moment : Timestamp) (ids : List Nat) (t : Traffic) :
    (ids.map Effect.disconnected).foldl (absorb moment) t =
      { t with waiters := t.waiters.map fun w => if w.number ∈ ids then w.deliver .closed else w } := by
  induction ids generalizing t with
  | nil => simp
  | cons id ids ih =>
    rw [List.map_cons, List.foldl_cons, ih]
    simp only [absorb, deliver, List.map_map, Traffic.mk.injEq, true_and, and_true]
    refine List.map_congr_left fun w _ => ?_
    by_cases h : w.number = id
    · have hdeliver : (w.deliver .closed).number = id := h
      simp only [Function.comp_apply, hdeliver, h, List.mem_cons, true_or, if_true]
      split <;> rfl
    · simp only [Function.comp_apply, List.mem_cons, h, false_or, if_false]

/-! ## What comes of a move -/

theorem step_line_of_closed (h : t.connection.isOpen = false) (moment : Timestamp) (text : String) :
    t.step (.line moment text) = t := by
  simp [step, h]

theorem step_line_none {text : String} (h : Message.read? text = none) (moment : Timestamp) :
    t.step (.line moment text) = t := by
  simp only [step, Connection.receive_none h]
  split <;> rfl

theorem step_line_response {text : String} {e : Exchange} (hopen : t.connection.isOpen = true)
    (h : Message.read? text = some (.response e)) (moment : Timestamp) :
    t.step (.line moment text) =
      { t with logs := fun n =>
          if t.connection.sink = some n then (t.logs n).record ⟨e, moment⟩ else t.logs n } := by
  simp only [step, if_pos hopen, Connection.receive_response h, after]
  cases t.connection.sink with
  | none => simp
  | some log =>
    simp only [Option.map_some, Option.toList_some, List.foldl_cons, List.foldl_nil, absorb,
      Option.some.injEq, eq_comm]

theorem step_line_reply {text : String} {r : Reply} (hnodup : t.connection.ids.Nodup)
    (hopen : t.connection.isOpen = true) (h : Message.read? text = some (.reply r))
    (moment : Timestamp) :
    t.step (.line moment text) =
      { t with
        connection := t.connection.without r.id
        waiters := t.waiters.map fun w =>
          if w.number = r.id ∧ t.connection.Awaits w.number then w.deliver (.reply r) else w } := by
  simp only [step, if_pos hopen, Connection.receive_reply hnodup h, after]
  by_cases hawaits : t.connection.Awaits r.id
  · simp only [if_pos hawaits, List.foldl_cons, List.foldl_nil, absorb, deliver, Traffic.mk.injEq,
      true_and, and_true]
    refine List.map_congr_left fun w _ => ?_
    by_cases hid : w.number = r.id
    · simp only [hid, hawaits, and_self, if_true]
    · simp only [hid, false_and, if_false]
  · have hnone : ∀ w : Waiter, ¬(w.number = r.id ∧ t.connection.Awaits w.number) :=
      fun w hw => hawaits (hw.1 ▸ hw.2)
    simp only [if_neg hawaits, List.foldl_nil, if_neg (hnone _), List.map_id']

/-- A line is a reply or a response, or it does nothing. -/
theorem step_line_cases (t : Traffic) (moment : Timestamp) (text : String) :
    t.step (.line moment text) = t ∨ t.connection.isOpen = true ∧
      ((∃ r, Message.read? text = some (.reply r)) ∨ ∃ e, Message.read? text = some (.response e)) := by
  rcases hopen : t.connection.isOpen with _ | _
  · exact .inl (step_line_of_closed hopen moment text)
  rcases hread : Message.read? text with _ | (r | e)
  · exact .inl (step_line_none hread moment)
  · exact .inr ⟨rfl, .inl ⟨r, rfl⟩⟩
  · exact .inr ⟨rfl, .inr ⟨e, rfl⟩⟩

theorem waiter?_line_reply {text : String} {r : Reply} (hnodup : t.connection.ids.Nodup)
    (hopen : t.connection.isOpen = true) (h : Message.read? text = some (.reply r))
    (moment : Timestamp) (id : Nat) :
    (t.step (.line moment text)).waiter? id = (t.waiter? id).map fun w =>
      if w.number = r.id ∧ t.connection.Awaits w.number then w.deliver (.reply r) else w := by
  rw [step_line_reply hnodup hopen h]
  refine find?_map_number (fun v => ?_) _ _
  split <;> rfl

theorem step_finish_of_closed (h : t.connection.isOpen = false) (moment : Timestamp) :
    t.step (.finish moment) = t := by
  simp [step, h]

theorem step_finish (hopen : t.connection.isOpen = true) (moment : Timestamp) :
    t.step (.finish moment) =
      { t with
        connection := t.connection.finish.2
        waiters := t.waiters.map fun w =>
          if t.connection.Awaits w.number then w.deliver .closed else w } := by
  have heffects : t.connection.finish.1 =
      ((t.connection.pending.filter (·.awaited)).map (·.id)).map .disconnected := by
    simp [Connection.finish]
  have hmem : ∀ id, id ∈ (t.connection.pending.filter (·.awaited)).map (·.id) ↔
      t.connection.Awaits id := by
    intro id
    simp only [List.mem_map, List.mem_filter, Connection.Awaits]
    constructor
    · rintro ⟨⟨_, _⟩, ⟨hp, rfl⟩, rfl⟩
      exact hp
    · exact fun h => ⟨_, ⟨h, rfl⟩, rfl⟩
  simp only [step, if_pos hopen, after, heffects, foldl_disconnected, hmem]

theorem waiter?_finish (hopen : t.connection.isOpen = true) (moment : Timestamp) (id : Nat) :
    (t.step (.finish moment)).waiter? id = (t.waiter? id).map fun w =>
      if t.connection.Awaits w.number then w.deliver .closed else w := by
  rw [step_finish hopen]
  refine find?_map_number (fun v => ?_) _ _
  split <;> rfl

theorem waiter?_start (t : Traffic) (id : Nat) (command : String) (arguments : Json) (limit : Nat) :
    (t.step (.start command arguments limit)).waiter? id = (t.waiter? id).or
      (if t.connection.nextId = id then
        some { request := ⟨t.connection.nextId, command, arguments⟩, limit } else none) := by
  simp [step, Connection.start, waiter?, List.find?_singleton, Waiter.number]

theorem step_turn {x : Turn} (h : t.waiter? id = some w) (hv : w.take? x = some v) :
    t.step (.turn id x) = { t.put v with connection := x.settle id t.connection } := by
  simp only [step, h, Option.bind_some, hv]

theorem step_turn_none {x : Turn} (h : t.waiter? id = some w) (hv : w.take? x = none) :
    t.step (.turn id x) = t := by
  simp only [step, h, Option.bind_some, hv]

theorem waiter?_turn (h : t.waiter? id = some w) (x : Turn) :
    (t.step (.turn id x)).waiter? id = some ((w.take? x).getD w) := by
  rcases hv : w.take? x with _ | v
  · rw [step_turn_none h hv, h, Option.getD_none]
  · have hnumber := (Waiter.number_take? hv).trans (number_of_waiter? h)
    rw [step_turn h hv]
    refine (waiter?_put t v id).trans ?_
    rw [h, Option.map_some, if_pos ((number_of_waiter? h).trans hnumber.symm), Option.getD_some]

theorem step_turn_cases (t : Traffic) (id : Nat) (x : Turn) :
    t.step (.turn id x) = t ∨ ∃ w v, t.waiter? id = some w ∧ w.take? x = some v ∧
      t.step (.turn id x) = { t.put v with connection := x.settle id t.connection } := by
  rcases h : t.waiter? id with _ | w
  · exact .inl (by simp only [step, h, Option.bind_none])
  · rcases hv : w.take? x with _ | v
    · exact .inl (step_turn_none h hv)
    · exact .inr ⟨w, v, rfl, hv, step_turn h hv⟩

theorem waiter?_step_turn (h : t.waiter? id = some w) (id' : Nat) (x : Turn) :
    ∃ v, (t.step (.turn id' x)).waiter? id = some v ∧ w.Next t.connection (.turn id' x) v := by
  rcases step_turn_cases t id' x with hsame | ⟨w', v, hw', hv, hturn⟩
  · exact ⟨w, by rw [hsame, h], .same _ w⟩
  · have hput : (t.step (.turn id' x)).waiter? id = (t.waiter? id).map fun u =>
        if u.number = v.number then v else u := by
      rw [hturn]
      exact waiter?_put t v id
    rw [hput, h, Option.map_some, Waiter.number_take? hv, number_of_waiter? hw', number_of_waiter? h]
    by_cases hid : id = id'
    · subst hid
      cases h.symm.trans hw'
      have hnumber := number_of_waiter? h
      exact ⟨v, by rw [if_pos rfl], by rw [← hnumber]; exact .turn hv⟩
    · exact ⟨w, by rw [if_neg hid], .same _ w⟩

/-- A move does to a waiter what it can do, and nothing else. -/
theorem waiter?_step (hnodup : t.connection.ids.Nodup) (h : t.waiter? id = some w) (m : Move) :
    ∃ v, (t.step m).waiter? id = some v ∧ w.Next t.connection m v := by
  cases m with
  | start command arguments limit =>
    refine ⟨w, ?_, .same _ w⟩
    simp only [step, waiter?, List.find?_append]
    exact Option.or_eq_some_iff.mpr (.inl h)
  | turn id' x => exact waiter?_step_turn h id' x
  | attach log => exact ⟨w, h, .same _ w⟩
  | line moment text =>
    rcases step_line_cases t moment text with hsame | ⟨hopen, ⟨r, hread⟩ | ⟨e, hread⟩⟩
    · exact ⟨w, by rw [hsame, h], .same _ w⟩
    · rw [waiter?_line_reply hnodup hopen hread, h, Option.map_some]
      by_cases hgets : w.number = r.id ∧ t.connection.Awaits w.number
      · exact ⟨_, by rw [if_pos hgets], .answered moment hopen hread hgets.1.symm hgets.2⟩
      · exact ⟨w, by rw [if_neg hgets], .same _ w⟩
    · exact ⟨w, by rw [step_line_response hopen hread]; exact h, .same _ w⟩
  | finish moment =>
    rcases hopen : t.connection.isOpen with _ | _
    · exact ⟨w, by rw [step_finish_of_closed hopen, h], .same _ w⟩
    · rw [waiter?_finish hopen, h, Option.map_some]
      by_cases hgets : t.connection.Awaits w.number
      · exact ⟨_, by rw [if_pos hgets], .closed moment hopen hgets⟩
      · exact ⟨w, by rw [if_neg hgets], .same _ w⟩

/-! ## The pending requests -/

/-- Requests are numbered in turn, and those awaited are those of the waiters that wait. -/
structure Inv (t : Traffic) (n : Nat) : Prop where
  inTurn : t.waiters.map (·.number) = List.range' 1 n
  nextId : t.connection.nextId = (n + 1) % numbers
  nodup : t.connection.ids.Nodup
  known : ∀ id ∈ t.connection.ids, id ≤ n
  awaits_iff : ∀ id, t.connection.Awaits id ↔ (t.waiter? id).any (·.waits) = true

theorem inv_init : Inv {} 0 where
  inTurn := rfl
  nextId := rfl
  nodup := List.nodup_nil
  known := by simp [Connection.ids]
  awaits_iff := by simp [Connection.Awaits, waiter?]

theorem Inv.waiter?_eq_none {n : Nat} (h : t.Inv n) (hid : n < id) : t.waiter? id = none := by
  simp only [waiter?, List.find?_eq_none, beq_iff_eq]
  intro w hw heq
  have hmem : w.number ∈ List.range' 1 n := h.inTurn ▸ List.mem_map_of_mem hw
  have := List.mem_range'_1.mp hmem
  omega

theorem Inv.start {n : Nat} (h : t.Inv n) (hn : n + 1 < numbers) (command : String)
    (arguments : Json) (limit : Nat) : (t.step (.start command arguments limit)).Inv (n + 1) := by
  have hnext : t.connection.nextId = n + 1 := by rw [h.nextId, Nat.mod_eq_of_lt hn]
  have hids : (t.step (.start command arguments limit)).connection.ids =
      t.connection.ids ++ [n + 1] := by
    simp [step, Connection.start, Connection.ids, hnext]
  constructor
  · rw [List.range'_concat, ← h.inTurn]
    simp [step, Connection.start, Waiter.number, hnext, Nat.add_comm]
  · simp only [step, Connection.start, hnext]
  · rw [hids, List.nodup_append]
    refine ⟨h.nodup, List.nodup_singleton _, ?_⟩
    rintro id hid _ hnew rfl
    have := h.known id hid
    have := List.mem_singleton.mp hnew
    omega
  · intro id hid
    rw [hids, List.mem_append, List.mem_singleton] at hid
    rcases hid with hid | rfl
    · have := h.known id hid
      omega
    · exact Nat.le_refl _
  · intro id
    have hnone := h.waiter?_eq_none (Nat.lt_succ_self n)
    have hpending : (t.step (.start command arguments limit)).connection.Awaits id ↔
        t.connection.Awaits id ∨ id = n + 1 := by
      simp [step, Connection.start, Connection.Awaits, hnext]
    rw [hpending, waiter?_start, hnext]
    by_cases hid : id = n + 1
    · subst hid
      simp [hnone, Waiter.waits]
    · have hne : ¬n + 1 = id := fun heq => hid heq.symm
      simp only [hid, or_false, if_neg hne, Option.or_none]
      exact h.awaits_iff id

theorem Inv.of_map {n : Nat} (h : t.Inv n) {f : Waiter → Waiter} {c : Connection}
    {logs : Nat → NetworkLog} (hf : ∀ w, (f w).number = w.number)
    (hnext : c.nextId = t.connection.nextId) (hids : c.ids.Sublist t.connection.ids)
    (hawaits : ∀ id, c.Awaits id → t.connection.Awaits id)
    (hwaits : ∀ w, t.waiter? w.number = some w → (t.connection.Awaits w.number ↔ w.waits = true) →
      (c.Awaits w.number ↔ (f w).waits = true)) :
    Inv ⟨c, t.waiters.map f, logs⟩ n where
  inTurn := by
    rw [List.map_map, ← h.inTurn]
    exact List.map_congr_left fun w _ => hf w
  nextId := hnext.trans h.nextId
  nodup := h.nodup.sublist hids
  known id hid := h.known id (hids.subset hid)
  awaits_iff id := by
    have hold := h.awaits_iff id
    have hview : (⟨c, t.waiters.map f, logs⟩ : Traffic).waiter? id = (t.waiter? id).map f :=
      find?_map_number hf t.waiters id
    rw [hview]
    rcases hw : t.waiter? id with _ | w
    · rw [hw] at hold
      exact ⟨fun hid => hold.mp (hawaits id hid), fun hid => absurd hid Bool.false_ne_true⟩
    · rw [hw] at hold
      obtain rfl := number_of_waiter? hw
      exact hwaits w hw hold

theorem Inv.turn {n : Nat} (h : t.Inv n) (id : Nat) (x : Turn) : (t.step (.turn id x)).Inv n := by
  rcases step_turn_cases t id x with hsame | ⟨w, v, hw, hv, hturn⟩
  · rw [hsame]
    exact h
  · have hid := number_of_waiter? hw
    have hv' := (Waiter.number_take? hv).trans hid
    rw [hturn]
    refine h.of_map (fun u => ?_) (Turn.nextId_settle x id _) (Turn.ids_settle x id _)
      (fun _ => Turn.awaits_of_settle) fun u hu hold => ?_
    · split
      · exact Eq.symm (by assumption)
      · rfl
    · by_cases hne : u.number = id
      · obtain rfl : w = u := Option.some.inj (hw.symm.trans (hne ▸ hu))
        rw [if_pos (hid.trans hv'.symm), hid]
        exact Waiter.awaits_settle hv (hid ▸ hold)
      · rw [if_neg fun heq => hne (heq.trans hv')]
        exact (Turn.awaits_settle_of_ne hne).trans hold

theorem Inv.line {n : Nat} (h : t.Inv n) (moment : Timestamp) (text : String) :
    (t.step (.line moment text)).Inv n := by
  rcases step_line_cases t moment text with hsame | ⟨hopen, ⟨r, hread⟩ | ⟨e, hread⟩⟩
  · rw [hsame]
    exact h
  · rw [step_line_reply h.nodup hopen hread]
    refine h.of_map (fun w => ?_) rfl (Connection.ids_without _ _ ▸ List.filter_sublist)
      (fun id hid => (Connection.awaits_without.mp hid).1) fun w _ hold => ?_
    · split <;> rfl
    · rw [Connection.awaits_without]
      by_cases hid : w.number = r.id
      · by_cases hawaits : t.connection.Awaits w.number
        · rw [if_pos ⟨hid, hawaits⟩, Waiter.waits_deliver_reply]
          exact iff_of_false (fun h => h.2 hid) Bool.false_ne_true
        · rw [if_neg fun h => hawaits h.2]
          exact iff_of_false (fun h => h.2 hid) fun hwaits => hawaits (hold.mpr hwaits)
      · rw [if_neg fun h => hid h.1]
        exact (and_iff_left hid).trans hold
  · rw [step_line_response hopen hread]
    exact ⟨h.inTurn, h.nextId, h.nodup, h.known, h.awaits_iff⟩

theorem Inv.finish {n : Nat} (h : t.Inv n) (moment : Timestamp) :
    (t.step (.finish moment)).Inv n := by
  rcases hopen : t.connection.isOpen with _ | _
  · rw [step_finish_of_closed hopen]
    exact h
  · rw [step_finish hopen]
    refine h.of_map (fun w => ?_) rfl (List.nil_sublist _) (fun id hid => absurd hid List.not_mem_nil)
      fun w _ hold => iff_of_false List.not_mem_nil ?_
    · split <;> rfl
    · split
      · rw [Waiter.waits_deliver_closed]
        exact Bool.false_ne_true
      · exact fun hwaits => absurd (hold.mpr hwaits) (by assumption)

end Traffic

/-- How many requests a move makes. -/
def Move.starts : Move → Nat
  | .start _ _ _ => 1
  | _ => 0

/-- The helper writes no more. -/
def Move.ends : Move → Bool
  | .finish _ => true
  | _ => false

namespace Traffic

variable {t : Traffic} {n : Nat} {m : Move}

theorem Inv.step (h : t.Inv n) (hn : n + m.starts < numbers) : (t.step m).Inv (n + m.starts) := by
  cases m with
  | start command arguments limit => exact h.start hn command arguments limit
  | turn id x => exact h.turn id x
  | line moment text => exact h.line moment text
  | finish moment => exact h.finish moment
  | attach log => exact ⟨h.inTurn, h.nextId, h.nodup, h.known, h.awaits_iff⟩

/-- How many requests are made. -/
def starts (moves : List Move) : Nat :=
  (moves.map Move.starts).sum

theorem starts_append (moves more : List Move) :
    starts (moves ++ more) = starts moves + starts more := by
  simp [starts]

theorem starts_singleton (m : Move) : starts [m] = m.starts := by
  simp [starts]

/-- The helper has written all that it writes. -/
def ended (moves : List Move) : Bool :=
  moves.any Move.ends

theorem ended_append (moves more : List Move) : ended (moves ++ more) = (ended moves || ended more) :=
  List.any_append

theorem isOpen_step (t : Traffic) (m : Move) :
    (t.step m).connection.isOpen = (t.connection.isOpen && !m.ends) := by
  cases m with
  | start command arguments limit => simp [step, Connection.start, Move.ends]
  | turn id x =>
    simp only [Move.ends, Bool.not_false, Bool.and_true]
    rcases step_turn_cases t id x with hsame | ⟨w, v, -, -, hturn⟩
    · rw [hsame]
    · rw [hturn]
      exact (Turn.settle_frame x id _).1
  | line moment text =>
    simp only [Move.ends, Bool.not_false, Bool.and_true]
    simp only [step]
    split
    · rw [connection_after]
      exact (Connection.receive_frame _ text).1
    · rfl
  | finish moment =>
    simp only [step, Move.ends, Bool.not_true, Bool.and_false]
    split
    · rw [connection_after]
      rfl
    · exact eq_false_of_ne_true (by assumption)
  | attach log => simp [step, Connection.attach, Move.ends]

theorem isOpen_run (moves : List Move) : (run moves).connection.isOpen = !ended moves := by
  induction moves using List.reverseRecOn with
  | nil => rfl
  | append_singleton moves m ih =>
    rw [run_concat, isOpen_step, ih, ended_append, Bool.not_or]
    simp [ended]

/-- So it is after any moves, as long as there are numbers left. -/
theorem run_inv (moves : List Move) (h : starts moves < numbers) :
    (run moves).Inv (starts moves) := by
  induction moves using List.reverseRecOn with
  | nil => exact inv_init
  | append_singleton moves m ih =>
    rw [starts_append, starts_singleton] at h ⊢
    rw [run_concat]
    exact (ih (by omega)).step h

end Traffic

end PlainSteps.Bridge
