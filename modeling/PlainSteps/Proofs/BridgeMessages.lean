import PlainSteps.Bridge.Message
import PlainSteps.Proofs.JsonRecords

/-!
# Which lines tell of a response

`Message.read?_responseEvent`: a response that the helper prints is read back, whatever the event is called.

* `response?_object_iff` : which objects tell of which response. Other fields are passed over.
* `Message.ofJson?_eq_response_iff` : what can be a reply is never taken for a response.
-/

namespace PlainSteps.Bridge

open Json

theorem response?_eq_some_iff {v : Json} {e : Exchange} : response? v = some e ↔ ∃ event elapsed,
    v.fields? responseNames = some [some (.string event), some (.string e.url), some (.string e.method),
      some (.nat e.status), elapsed] ∧ e.status < Nat.pow 2 16 ∧
    ((elapsed = none ∧ e.elapsedMs = 0) ∨
      (elapsed = some (.nat e.elapsedMs) ∧ e.elapsedMs < Nat.pow 2 64)) := by
  constructor
  · intro h
    rw [response?] at h
    split at h
    · rename_i event url method status elapsed hfields
      obtain ⟨name, hname, h⟩ := Option.bind_eq_some_iff.mp h
      obtain ⟨u, hu, h⟩ := Option.bind_eq_some_iff.mp h
      obtain ⟨m, hm, h⟩ := Option.bind_eq_some_iff.mp h
      obtain ⟨n, hn, h⟩ := Option.bind_eq_some_iff.mp h
      obtain ⟨k, hk, h⟩ := Option.bind_eq_some_iff.mp h
      obtain rfl := Option.some.inj h
      obtain rfl := bind_text?_eq_some_iff.mp hname
      obtain rfl := bind_text?_eq_some_iff.mp hu
      obtain rfl := bind_text?_eq_some_iff.mp hm
      obtain ⟨rfl, hbound⟩ := bind_natural?_eq_some_iff.mp hn
      exact ⟨name, elapsed, hfields, hbound, orElse?_count?_eq_some_iff.mp hk⟩
    · cases h
  · rintro ⟨event, elapsed, hfields, hstatus, helapsed⟩
    rw [response?, hfields]
    refine Option.bind_eq_some_iff.mpr ⟨event, rfl, Option.bind_eq_some_iff.mpr ⟨e.url, rfl, ?_⟩⟩
    refine Option.bind_eq_some_iff.mpr ⟨e.method, rfl, Option.bind_eq_some_iff.mpr ⟨e.status, ?_, ?_⟩⟩
    · exact bind_natural?_eq_some_iff.mpr ⟨rfl, hstatus⟩
    · exact Option.bind_eq_some_iff.mpr ⟨e.elapsedMs, orElse?_count?_eq_some_iff.mpr helapsed, rfl⟩

theorem response?_object_iff {fs : List (String × Json)} {e : Exchange} : response? (.object fs) = some e ↔
    (∃ event, GivenOnce fs "event" (.string event)) ∧ GivenOnce fs "url" (.string e.url) ∧
      GivenOnce fs "method" (.string e.method) ∧
      (GivenOnce fs "status" (.nat e.status) ∧ e.status < Nat.pow 2 16) ∧
      (((∀ v, ("elapsed_ms", v) ∉ fs) ∧ e.elapsedMs = 0) ∨
        (GivenOnce fs "elapsed_ms" (.nat e.elapsedMs) ∧ e.elapsedMs < Nat.pow 2 64)) := by
  rw [response?_eq_some_iff]
  simp only [fields?_object_eq_some_iff, responseNames, List.forall₂_cons, List.forall₂_nil_right_iff,
    single?_eq_some_some_iff]
  constructor
  · rintro ⟨event, elapsed, ⟨hevent, hurl, hmethod, hstatus, helapsed, -⟩, hbound, hms⟩
    refine ⟨⟨event, hevent⟩, hurl, hmethod, ⟨hstatus, hbound⟩, ?_⟩
    rcases hms with ⟨rfl, hms⟩ | ⟨rfl, hms⟩
    · exact .inl ⟨single?_eq_some_none_iff.mp helapsed, hms⟩
    · exact .inr ⟨single?_eq_some_some_iff.mp helapsed, hms⟩
  · rintro ⟨⟨event, hevent⟩, hurl, hmethod, ⟨hstatus, hbound⟩, ⟨hnone, hms⟩ | ⟨helapsed, hms⟩⟩
    · exact ⟨event, none, ⟨hevent, hurl, hmethod, hstatus, single?_eq_some_none_iff.mpr hnone, trivial⟩,
        hbound, .inl ⟨rfl, hms⟩⟩
    · exact ⟨event, _, ⟨hevent, hurl, hmethod, hstatus, single?_eq_some_some_iff.mpr helapsed, trivial⟩,
        hbound, .inr ⟨rfl, hms⟩⟩

/-- An event of any name that tells of a response. -/
def responseEvent (event : String) (e : Exchange) : Json :=
  .object [("event", .string event), ("url", .string e.url), ("method", .string e.method),
    ("status", .nat e.status), ("elapsed_ms", .nat e.elapsedMs)]

theorem response?_responseEvent (event : String) {e : Exchange} (hstatus : e.status < Nat.pow 2 16)
    (helapsed : e.elapsedMs < Nat.pow 2 64) : response? (responseEvent event e) = some e :=
  response?_object_iff.mpr ⟨⟨event, rfl⟩, rfl, rfl, ⟨rfl, hstatus⟩, .inr ⟨rfl, helapsed⟩⟩

namespace Message

theorem ofJson?_eq_response_iff {v : Json} {e : Exchange} :
    ofJson? v = some (.response e) ↔ Reply.ofJson? v = none ∧ response? v = some e := by
  rw [ofJson?]
  cases Reply.ofJson? v <;> simp

theorem not_reply_of_no_id {fs : List (String × Json)} (h : ∀ v, ("id", v) ∉ fs) :
    Reply.ofJson? (.object fs) = none := by
  rw [Reply.ofJson?]
  split
  · rename_i id ok value error timeout hfields
    simp only [fields?_object_eq_some_iff, Reply.fieldNames, List.forall₂_cons] at hfields
    obtain rfl : none = id := Option.some.inj ((single?_eq_some_none_iff.mpr h).symm.trans hfields.1)
    rfl
  · rfl

theorem read?_responseEvent (event : String) {e : Exchange} (hstatus : e.status < Nat.pow 2 16)
    (helapsed : e.elapsedMs < Nat.pow 2 64) :
    read? (responseEvent event e).compact = some (.response e) := by
  have hfits : (responseEvent event e).Fits 2 := by
    refine fits_object ?_
    simp only [List.forall_mem_cons, List.not_mem_nil, false_imp_iff, implies_true, and_true]
    exact ⟨fits_string 0 _, fits_string 0 _, fits_string 0 _, fits_nat 0 (Nat.lt_trans hstatus (by decide)),
      fits_nat 0 helapsed⟩
  have hread := read?_compact hfits.exact (Nat.le_trans hfits.depth_le (by decide))
  rw [read?, hread, Option.bind_some]
  exact ofJson?_eq_response_iff.mpr
    ⟨not_reply_of_no_id (by simp), response?_responseEvent event hstatus helapsed⟩

end Message

end PlainSteps.Bridge
