import PlainSteps.Proofs.PairedRuns

/-!
# The password of the login stays with the login

`Run.execute_password_secret`: on a browser whose answers do not depend on the values that its fields
were filled with, two runs that differ in the password of the login alone come to the same report, publish
the same progress and write the same files, and their requests are the same but for the values filled
into the password field by the login.

The routines that set the two runs up are the same but for the stage that fills in the password
(`Routine.Apart`, `Run.setUp_apart`). Where such routines are carried out, the sessions come to be twins
(`Session.Twin`): they are the same but for the events that the password stands in, and their browsers
cannot be told apart. From there on the two runs do the same in twin sessions, request by request
(`Session.ask_twin`). So all that follows keeps the two ends alike but for these fills
(`Ended.ButForFills.andThen`), up to the report.
-/

namespace PlainSteps

variable {σ α β : Type}

/-! ## Browsers that do not tell what they are filled with -/

/-- A request without the value of a fill. -/
def Call.masked : Call → Call
  | .fill locator _ timeout => .fill locator "" timeout
  | c => c

/-- A history of requests without the values of fills. -/
def maskedAll (made : List (Nat × Call)) : List (Nat × Call) :=
  made.map fun q => (q.1, q.2.masked)

/-- What requests come to after a history of requests does not depend on the values of fills, neither of
those made nor of the one that is, and nor does whether a file can be written. -/
structure World.Blind (w : World σ) (page : σ) : Prop where
  answers : ∀ made made' time c c', maskedAll made = maskedAll made' → c.masked = c'.masked →
    (w.answer (w.after page made) time c).delay = (w.answer (w.after page made') time c').delay ∧
    (w.answer (w.after page made) time c).outcome = (w.answer (w.after page made') time c').outcome ∧
    (w.answer (w.after page made) time c).exchanges = (w.answer (w.after page made') time c').exchanges
  stores : ∀ made made' time path, maskedAll made = maskedAll made' →
    w.stores (w.after page made) time path = w.stores (w.after page made') time path

/-- The two browsers come of histories that differ in the values of fills alone. -/
def World.LookAlike (w : World σ) (page p q : σ) : Prop :=
  ∃ made made', p = w.after page made ∧ q = w.after page made' ∧ maskedAll made = maskedAll made'

namespace World.LookAlike

variable {w : World σ} {page p q : σ}

theorem refl_after (made : List (Nat × Call)) : w.LookAlike page (w.after page made) (w.after page made) :=
  ⟨made, made, rfl, rfl, rfl⟩

theorem answer (h : w.LookAlike page p q) (time : Nat) {c c' : Call} (hc : c.masked = c'.masked) :
    w.LookAlike page (w.answer p time c).page (w.answer q time c').page := by
  obtain ⟨made, made', rfl, rfl, hmade⟩ := h
  refine ⟨made ++ [(time, c)], made' ++ [(time, c')], ?_, ?_, ?_⟩
  · rw [World.after_concat]
  · rw [World.after_concat]
  · simp only [maskedAll, List.map_append, List.map_cons, List.map_nil, hc] at hmade ⊢
    rw [hmade]

theorem answers (hw : w.Blind page) (h : w.LookAlike page p q) (time : Nat) {c c' : Call}
    (hc : c.masked = c'.masked) :
    (w.answer p time c).delay = (w.answer q time c').delay ∧
    (w.answer p time c).outcome = (w.answer q time c').outcome ∧
    (w.answer p time c).exchanges = (w.answer q time c').exchanges := by
  obtain ⟨made, made', rfl, rfl, hmade⟩ := h
  exact hw.answers made made' time c c' hmade hc

theorem stores (hw : w.Blind page) (h : w.LookAlike page p q) (time : Nat) (path : String) :
    w.stores p time path = w.stores q time path := by
  obtain ⟨made, made', rfl, rfl, hmade⟩ := h
  exact hw.stores made made' time path hmade

end World.LookAlike

/-! ## Twin sessions -/

namespace Session

/-- Two sessions have come to the same since the events `base` of the one and `base'` of the other, and
their browsers look alike. -/
structure Twin (w : World σ) (page : σ) (base base' : List Event) (s t : Session σ) : Prop where
  pages : w.LookAlike page s.page t.page
  now : s.now = t.now
  network : s.network = t.network
  files : s.files = t.files
  progress : s.progress = t.progress
  events : ∃ later, s.events = base ++ later ∧ t.events = base' ++ later

variable {w : World σ} {page : σ} {base base' : List Event} {s t s' t' : Session σ} {d : Option Nat}

namespace Twin

theorem moment (h : Twin w page base base' s t) : s.moment w = t.moment w := by
  rw [Session.moment, Session.moment, h.now]

theorem since {more : List Event} (h : Twin w page base base' s t)
    (h' : Twin w page (s.events ++ more) (t.events ++ more) s' t') : Twin w page base base' s' t' := by
  obtain ⟨later, hs, ht⟩ := h.events
  obtain ⟨last, hs', ht'⟩ := h'.events
  refine ⟨h'.pages, h'.now, h'.network, h'.files, h'.progress, later ++ more ++ last, ?_, ?_⟩
  · rw [hs', hs, List.append_assoc, List.append_assoc, List.append_assoc]
  · rw [ht', ht, List.append_assoc, List.append_assoc, List.append_assoc]

theorem write (h : Twin w page base base' s t) (path : String) (bytes : List UInt8) :
    Twin w page base base' (s.write path bytes) (t.write path bytes) :=
  ⟨h.pages, h.now, h.network, by rw [Session.write, Session.write, h.files], h.progress, h.events⟩

theorem publish (h : Twin w page base base' s t) (p : Progress) :
    Twin w page base base' (s.publish p) (t.publish p) :=
  ⟨h.pages, h.now, h.network, h.files, by rw [Session.publish, Session.publish, h.progress], h.events⟩

theorem capture (h : Twin w page base base' s t) (on : Bool) :
    Twin w page base base' (s.capture on) (t.capture on) := by
  obtain ⟨later, hs, ht⟩ := h.events
  refine ⟨h.pages, h.now, rfl, h.files, h.progress, later ++ [.capture s.now on], ?_, ?_⟩
  · rw [capture_events, hs, List.append_assoc]
  · rw [capture_events, ht, ← h.now, List.append_assoc]

theorem drain (h : Twin w page base base' s t) :
    s.drain.1 = t.drain.1 ∧ Twin w page base base' s.drain.2 t.drain.2 := by
  have hnetwork := h.network
  unfold Session.drain
  cases hs : s.network with
  | none =>
    rw [← hnetwork, hs]
    exact ⟨rfl, h⟩
  | some log =>
    rw [← hnetwork, hs]
    exact ⟨rfl, h.pages, h.now, rfl, h.files, h.progress, h.events⟩

theorem elapse (h : Twin w page base base' s t) (ms : Nat) :
    (s.elapse w d ms).1 = (t.elapse w d ms).1 ∧
      Twin w page base base' (s.elapse w d ms).2 (t.elapse w d ms).2 := by
  unfold Session.elapse
  rw [← h.now]
  split
  · exact ⟨rfl, h.pages, rfl, h.network, h.files, h.progress, h.events⟩
  · exact ⟨rfl, h.pages, rfl, h.network, h.files, h.progress, h.events⟩

end Twin

section ask

variable {c c' : Call}

theorem made_twin (h : Twin w page base base' s t) (hc : c.masked = c'.masked) :
    Twin w page (s.events ++ [.call s.now c]) (t.events ++ [.call t.now c']) (s.made w c)
      (t.made w c') where
  pages := by
    simp only [Session.made, ← h.now]
    exact h.pages.answer s.now hc
  now := h.now
  network := h.network
  files := h.files
  progress := h.progress
  events := ⟨[], (List.append_nil _).symm, (List.append_nil _).symm⟩

theorem awaited_twin (hw : w.Blind page) (h : Twin w page base base' s t) (hc : c.masked = c'.masked)
    (time : Nat) :
    Twin w page (s.events ++ [.call s.now c]) (t.events ++ [.call t.now c']) (s.awaited w c time)
      (t.awaited w c' time) := by
  have hmade := made_twin h hc
  obtain ⟨-, -, hexchanges⟩ := h.pages.answers hw s.now hc
  refine ⟨hmade.pages, rfl, ?_, hmade.files, hmade.progress, hmade.events⟩
  simp only [Session.awaited, Session.receive, Session.made, ← h.now, ← h.network, hexchanges]

theorem ask_twin (hw : w.Blind page) (h : Twin w page base base' s t) (hc : c.masked = c'.masked)
    (limit : Option Nat) :
    Ended.Paired (Twin w page (s.events ++ [.call s.now c]) (t.events ++ [.call t.now c'])) Eq
      (s.ask w d c limit) (t.ask w d c' limit) := by
  obtain ⟨hdelay, houtcome, -⟩ := h.pages.answers hw s.now hc
  have hawaited := fun time => awaited_twin hw h hc time
  refine ask_paired limit (by rw [hdelay, h.now]) (by rw [houtcome, h.now]) (fun ms => by rw [h.now])
    (made_twin h hc) (fun ms => ?_) fun due _ => ⟨hawaited due, ?_⟩
  · have hafter := hawaited (t.now + ms)
    rwa [h.now] at hafter ⊢
  · have hafter := hawaited (max t.now due)
    rwa [h.now] at hafter ⊢

end ask

end Session

/-- In twin sessions a routine comes to the same. -/
theorem Routine.run_twin {w : World σ} {page : σ} {base base' : List Event} {s t : Session σ}
    {d : Option Nat} (hw : w.Blind page) (r : Routine α) (h : s.Twin w page base base' t) :
    Ended.Paired (Session.Twin w page base base') Eq (r.run w d s) (r.run w d t) := by
  refine run_paired (P := fun _ => True) ?_ (fun ms h => h.elapse ms) r.asks_true (.inr ?_) h
  · intro s t c limit _ h
    refine (Session.ask_twin hw h rfl limit).mono fun s' t' h' => ?_
    rw [← h.now] at h'
    exact h.since h'
  · intro s t path bytes h
    refine ⟨?_, h.write path bytes⟩
    rw [h.pages.stores hw, h.now]

/-! ## Cases in twin sessions -/

namespace CaseRun

variable {r : CaseRunner} {w : World σ} {page : σ} {base base' : List Event} {s t : Session σ}
  {d : Option Nat}

theorem runStep_twin (hw : w.Blind page) (x : Step.Context) (index : Nat) (description : String)
    (action : Action) (vars : Variables) (h : s.Twin w page base base' t) :
    Ended.Paired (Session.Twin w page base base') Eq (runStep x w d index description action vars s)
      (runStep x w d index description action vars t) := by
  rw [runStep_eq, runStep_eq]
  refine (Routine.run_twin hw _ h).andThen ?_
  rintro p _ s₁ t₁ rfl h₁
  refine (Routine.run_twin hw _ h₁).andThen ?_
  rintro screenshot _ s₂ t₂ rfl h₂
  refine .done ?_ h₂
  rw [h.moment, h₁.moment, h.now, h₁.now]

theorem oneStep_twin (hw : w.Blind page) (caseId raw : String) (index : Nat) (vars : Variables)
    (h : s.Twin w page base base' t) :
    Ended.Paired (Session.Twin w page base base') Eq (oneStep r w d caseId raw index vars s)
      (oneStep r w d caseId raw index vars t) := by
  have hbegun : Session.Twin w page base base'
      (beginStep r w caseId index (Sentence.normalize (vars.substitute raw)) s)
      (beginStep r w caseId index (Sentence.normalize (vars.substitute raw)) t) := by
    rw [beginStep, beginStep, h.moment]
    exact h.publish _
  refine (runStep_twin hw _ index _ _ vars hbegun).andThen ?_
  rintro p _ s₁ t₁ rfl h₁
  obtain ⟨hnetwork, h₂⟩ := h₁.drain
  rw [endStep, endStep, hnetwork]
  exact .done rfl (h₂.publish _)

theorem runSteps_twin (hw : w.Blind page) (caseId : String) (raws : List String) (index : Nat)
    (vars : Variables) (h : s.Twin w page base base' t) :
    (runSteps r w d caseId raws index vars s).steps = (runSteps r w d caseId raws index vars t).steps ∧
    (runSteps r w d caseId raws index vars s).ending = (runSteps r w d caseId raws index vars t).ending ∧
    Session.Twin w page base base' (runSteps r w d caseId raws index vars s).session
      (runSteps r w d caseId raws index vars t).session := by
  induction raws generalizing index vars s t with
  | nil => exact ⟨rfl, rfl, h⟩
  | cons raw rest ih =>
    rw [runSteps_cons, runSteps_cons]
    obtain ⟨e, s₁, t₁, hs, ht, h₁⟩ := (oneStep_twin (r := r) (d := d) hw caseId raw index vars h).exists_of_eq
    rw [hs, ht]
    rcases e with ⟨result, vars'⟩ | halt
    · simp only
      split
      · exact ⟨rfl, rfl, h₁⟩
      · obtain ⟨hsteps, hending, hsession⟩ := ih (index + 1) vars' h₁
        exact ⟨congrArg (result :: ·) hsteps, hending, hsession⟩
    · exact ⟨rfl, rfl, h₁⟩

theorem carried_twin (hw : w.Blind page) (c : TestCase) (h : s.Twin w page base base' t) :
    (carried r w c s).steps = (carried r w c t).steps ∧
    (carried r w c s).ending = (carried r w c t).ending ∧
    Session.Twin w page base base' (carried r w c s).session (carried r w c t).session := by
  have hdue : deadline r s = deadline r t := by rw [deadline, deadline, h.now]
  unfold carried
  rw [hdue, h.now]
  split
  · exact runSteps_twin hw c.id c.steps 0 .empty (h.capture _)
  · exact ⟨rfl, rfl, h.capture _⟩

theorem run_twin (hw : w.Blind page) (c : TestCase) (h : s.Twin w page base base' t) :
    Ended.Paired (Session.Twin w page base base') Eq (run r w c s) (run r w c t) := by
  obtain ⟨hsteps, hending, hsession⟩ := carried_twin (r := r) hw c h
  have hconcluded : ∀ termination error,
      Ended.Paired (Session.Twin w page base base') Eq
        (concluded w c s (carried r w c s) termination error)
        (concluded w c t (carried r w c t) termination error) := by
    intro termination error
    have hcaptured := hsession.capture false
    rw [concluded, concluded, hsteps, h.moment, hcaptured.moment, h.now, hcaptured.now]
    exact .done rfl hcaptured
  rw [run_eq, run_eq, hending]
  split
  · exact hconcluded _ _
  · exact hconcluded _ _
  · exact .halted hsession

end CaseRun

/-! ## The login -/

/-- The browser has been led here by requests. -/
def Session.Reached (w : World σ) (page : σ) (s : Session σ) : Prop :=
  ∃ made, s.page = w.after page made

theorem Routine.run_reached {w : World σ} {page : σ} {s : Session σ} (r : Routine α)
    (hs : s.Reached w page) : (r.run w none s).2.Reached w page := by
  have hanswer : ∀ (u : Session σ) c, u.Reached w page →
      ∃ made, (w.answer u.page u.now c).page = w.after page made := by
    rintro u c ⟨made, hu⟩
    exact ⟨made ++ [(u.now, c)], by rw [World.after_concat, hu]⟩
  exact run_keeps (I := fun t => t.Reached w page) (fun u c _ hu => hanswer u c hu)
    (fun u c _ _ _ _ hu => hanswer u c hu) (fun _ _ _ _ hu => hu) (fun _ _ _ hu => hu) r.asks_true
    (Session.inTime_none s) hs

namespace Login

/-- The events of fills of the password field with a password, at times and by locators. -/
def passwordFills (login : LoginSettings) (password : String) (tries : List (Nat × String)) :
    List Event :=
  tries.map fun q => .call q.1 (.fill q.2 password login.timeout)

theorem first_twin {w : World σ} {page : σ} {base base' : List Event} {s t : Session σ} {d : Option Nat}
    (hw : w.Blind page) (login : LoginSettings) (p p' : String) (ls : List String)
    (h : s.Twin w page base base' t) :
    ∃ tries : List (Nat × String), tries.map (·.2) <+: ls ∧
      Ended.Paired (Session.Twin w page (s.events ++ passwordFills login p tries)
          (t.events ++ passwordFills login p' tries)) Eq
        ((first (.fill · p login.timeout) ls).run w d s)
        ((first (.fill · p' login.timeout) ls).run w d t) := by
  induction ls generalizing base base' s t with
  | nil =>
    refine ⟨[], List.nil_prefix, .done rfl ⟨h.pages, h.now, h.network, h.files, h.progress, [], ?_, ?_⟩⟩
    · simp [passwordFills]
    · simp [passwordFills]
  | cons l ls ih =>
    have hmasked : (Call.fill l p login.timeout).masked = (Call.fill l p' login.timeout).masked := rfl
    have hask := Session.ask_twin (d := d) hw h hmasked none
    have hs := Routine.ask_events w d (.fill l p login.timeout) none s
    have ht := Routine.ask_events w d (.fill l p' login.timeout) none t
    obtain ⟨e, s₁, t₁, hsame, hsame', h₁⟩ := hask.exists_of_eq
    rw [hsame] at hs
    rw [hsame'] at ht
    simp only at hs ht
    have hone : passwordFills login p [(s.now, l)] = [.call s.now (.fill l p login.timeout)] := rfl
    have hone' : passwordFills login p' [(s.now, l)] = [.call t.now (.fill l p' login.timeout)] := by
      rw [← h.now]
      rfl
    have htried : Session.Twin w page (s.events ++ passwordFills login p [(s.now, l)])
        (t.events ++ passwordFills login p' [(s.now, l)]) s₁ t₁ := by
      rw [hone, hone']
      exact h₁
    have hrest : ∃ tries : List (Nat × String), tries.map (·.2) <+: l :: ls ∧
        Ended.Paired (Session.Twin w page (s.events ++ passwordFills login p tries)
            (t.events ++ passwordFills login p' tries)) Eq
          ((first (.fill · p login.timeout) ls).run w d s₁)
          ((first (.fill · p' login.timeout) ls).run w d t₁) := by
      obtain ⟨tries, htries, hpaired⟩ := ih h₁
      refine ⟨(s.now, l) :: tries, List.cons_prefix_cons.mpr ⟨rfl, htries⟩, ?_⟩
      rw [hs, ht, ← hone, ← hone', List.append_assoc, List.append_assoc] at hpaired
      exact hpaired
    have hl : [(s.now, l)].map (·.2) <+: l :: ls := List.cons_prefix_cons.mpr ⟨rfl, List.nil_prefix⟩
    rw [first, first, Routine.request, Routine.request, Routine.bind, Routine.bind, Routine.run_call,
      Routine.run_call, hsame, hsame']
    rcases e with reply | halt
    · cases reply with
      | ok v => exact ⟨[(s.now, l)], hl, .done rfl htried⟩
      | failed e => exact hrest
      | late => exact hrest
    · exact ⟨[(s.now, l)], hl, .halted htried⟩

end Login

/-- Two ends are alike, and what was noted before them since a session is the same but for the values of
fills. These are consecutive ones of the password field, by first ones of its locators, and only certain
requests come before them. -/
def Ended.ButForFills (P : Call → Prop) (login : LoginSettings) (password : String) (w : World σ)
    (page : σ) (s : Session σ) (x y : Ended α × Session σ) : Prop :=
  ∃ (before : List Event) (tries : List (Nat × String)),
    (∀ e ∈ before, ∃ time c, e = .call time c ∧ P c) ∧ tries.map (·.2) <+: login.passwordLocators ∧
    Paired
      (Session.Twin w page (s.events ++ before ++ Login.passwordFills login login.password tries)
        (s.events ++ before ++ Login.passwordFills login password tries)) Eq x y

namespace Ended.ButForFills

variable {P : Call → Prop} {login : LoginSettings} {password : String} {w : World σ} {page : σ}
  {s : Session σ}

theorem refl {x : Ended α × Session σ} {made : List Event} (hpage : x.2.Reached w page)
    (hevents : x.2.events = s.events ++ made) : ButForFills P login password w page s x x := by
  obtain ⟨path, hpath⟩ := hpage
  have hall : x.2.events = s.events ++ [] ++ [] ++ made := by
    rw [hevents, List.append_nil, List.append_nil]
  have htwin : Session.Twin w page (s.events ++ [] ++ []) (s.events ++ [] ++ []) x.2 x.2 :=
    ⟨hpath ▸ .refl_after path, rfl, rfl, rfl, rfl, made, hall, hall⟩
  refine ⟨[], [], by simp, List.nil_prefix, ?_⟩
  rcases x with ⟨a | halt, t⟩
  · exact .done rfl htwin
  · exact .halted htwin

theorem andThen {x y : Ended α × Session σ} {f g : α → Session σ → Ended β × Session σ}
    (h : ButForFills P login password w page s x y)
    (hfg : ∀ a {base base' t u}, Session.Twin w page base base' t u →
      Paired (Session.Twin w page base base') Eq (f a t) (g a u)) :
    ButForFills P login password w page s (Ended.andThen x f) (Ended.andThen y g) := by
  obtain ⟨before, tries, hbefore, htries, hpaired⟩ := h
  refine ⟨before, tries, hbefore, htries, hpaired.andThen ?_⟩
  rintro a _ t u rfl htwin
  exact hfg a htwin

theorem after {r : Routine α} (hr : r.Asks P) (hs : s.Reached w page)
    {f g : α → Session σ → Ended β × Session σ}
    (hfg : ∀ a (t : Session σ), t.Reached w page →
      ButForFills P login password w page t (f a t) (g a t)) :
    ButForFills P login password w page s (Ended.andThen (r.run w none s) f)
      (Ended.andThen (r.run w none s) g) := by
  obtain ⟨made, hmade, hfirst⟩ := Routine.run_events hr w none s
  have hreached := Routine.run_reached r hs
  generalize r.run w none s = x at hmade hreached
  obtain ⟨a | halt, t⟩ := x
  · obtain ⟨before, tries, hbefore, htries, hpaired⟩ := hfg a t hreached
    refine ⟨made ++ before, tries, List.forall_mem_append.mpr ⟨hfirst, hbefore⟩, htries, ?_⟩
    rw [hmade, List.append_assoc s.events] at hpaired
    exact hpaired
  · exact refl (x := (.halted halt, t)) hreached hmade

end Ended.ButForFills

/-- Two routines are the same but for the password that a login fills in, and make only certain requests
before that. -/
inductive Routine.Apart (P : Call → Prop) (login : LoginSettings) (password : String) :
    Routine α → Routine α → Prop
  | same (r : Routine α) : Apart P login password r r
  | tries (next : Bool → Routine α) :
    Apart P login password
      ((Login.first (.fill · login.password login.timeout) login.passwordLocators).bind next)
      ((Login.first (.fill · password login.timeout) login.passwordLocators).bind next)
  | after {β : Type} {r : Routine β} (hr : r.Asks P) {f f' : β → Routine α}
      (h : ∀ a, Apart P login password (f a) (f' a)) : Apart P login password (r.bind f) (r.bind f')

namespace Routine.Apart

variable {P : Call → Prop} {login : LoginSettings} {password : String} {r r' : Routine α}

theorem bind (h : Apart P login password r r') (k : α → Routine β) :
    Apart P login password (r.bind k) (r'.bind k) := by
  induction h with
  | same r => exact .same _
  | tries next =>
    rw [bind_assoc, bind_assoc]
    exact .tries _
  | after hr h ih =>
    rw [bind_assoc, bind_assoc]
    exact .after hr ih

/-- Routines that differ in a password come to the same, and what they note differs where it is filled
in. -/
theorem run_twin {w : World σ} {page : σ} {s : Session σ} (hw : w.Blind page)
    (h : Apart P login password r r') (hs : s.Reached w page) :
    Ended.ButForFills P login password w page s (r.run w none s) (r'.run w none s) := by
  induction h generalizing s with
  | same r =>
    obtain ⟨made, hmade, -⟩ := run_events r.asks_true w none s
    exact .refl (run_reached r hs) hmade
  | tries next =>
    obtain ⟨made, hmade⟩ := hs
    have htwin : Session.Twin w page s.events s.events s s :=
      ⟨hmade ▸ .refl_after made, rfl, rfl, rfl, rfl, [], (List.append_nil _).symm, (List.append_nil _).symm⟩
    obtain ⟨tries, htries, hpaired⟩ := Login.first_twin (d := none) hw login login.password password
      login.passwordLocators htwin
    have hfirst : Ended.ButForFills P login password w page s
        ((Login.first (.fill · login.password login.timeout) login.passwordLocators).run w none s)
        ((Login.first (.fill · password login.timeout) login.passwordLocators).run w none s) := by
      refine ⟨[], tries, by simp, htries, ?_⟩
      rw [List.append_nil]
      exact hpaired
    rw [run_bind, run_bind]
    exact hfirst.andThen fun worked _ _ _ _ h => Routine.run_twin hw (next worked) h
  | after hr h ih =>
    rw [run_bind, run_bind]
    exact .after hr hs fun a t ht => ih a ht

end Routine.Apart

namespace Run

variable {w : World σ} {page : σ} {base base' : List Event} {s t : Session σ}

theorem runCases_twin (hw : w.Blind page) (x : CaseRunner) (cases : List TestCase)
    (h : s.Twin w page base base' t) :
    (runCases x w cases s).1 = (runCases x w cases t).1 ∧
    (runCases x w cases s).2.1 = (runCases x w cases t).2.1 ∧
    Session.Twin w page base base' (runCases x w cases s).2.2 (runCases x w cases t).2.2 := by
  induction cases generalizing s t with
  | nil => exact ⟨rfl, rfl, h⟩
  | cons c cs ih =>
    obtain ⟨e, s₁, t₁, hs, ht, h₁⟩ := (CaseRun.run_twin (r := x) hw c h).exists_of_eq
    rw [runCases_cons, runCases_cons, hs, ht]
    rcases e with result | halt
    · obtain ⟨hresults, hhalt, hsession⟩ := ih h₁
      exact ⟨congrArg (result :: ·) hresults, hhalt, hsession⟩
    · exact ⟨rfl, rfl, h₁⟩

/-! ## Runs -/

/-- The run with another password. -/
def withPassword (r : Run) (password : String) : Run :=
  { r with settings := { r.settings with login := { r.settings.login with password } } }

/-- The requests of a run up to the one that fills in the password. -/
inductive BeforePassword (r : Run) : Call → Prop
  | launch : BeforePassword r (.launch r.launch)
  | openPage : BeforePassword r .openPage
  | loginPage : BeforePassword r
      (.goto (r.settings.login.loginUrl.getD r.targetUrl) .domContentLoaded
        r.settings.execution.navigationTimeout)
  | username {l : String} (h : l ∈ r.settings.login.usernameLocators) :
    BeforePassword r (.fill l r.settings.login.username r.settings.login.timeout)

/-- The events of two runs are the same but for the values of fills, and these are consecutive ones that
the login makes, of the password by first ones of its locators. -/
def ApartInPassword (r : Run) (password : String) (events events' : List Event) : Prop :=
  ∃ (before after : List Event) (tries : List (Nat × String)),
    (∀ e ∈ before, ∃ time c, e = .call time c ∧ r.BeforePassword c) ∧
    tries.map (·.2) <+: r.settings.login.passwordLocators ∧
    events = before ++ Login.passwordFills r.settings.login r.settings.login.password tries ++ after ∧
    events' = before ++ Login.passwordFills r.settings.login password tries ++ after

theorem setUp_apart (r : Run) (password : String) :
    Routine.Apart r.BeforePassword r.settings.login password r.setUp (r.withPassword password).setUp := by
  have hlogin : ∀ navigationTimeout, navigationTimeout = r.settings.execution.navigationTimeout →
      Routine.Apart r.BeforePassword r.settings.login password
        (Login.perform r.settings.login r.targetUrl navigationTimeout)
        (Login.perform { r.settings.login with password } r.targetUrl navigationTimeout) := by
    rintro _ rfl
    refine .after (Routine.asks_request .loginPage) fun opened => ?_
    cases opened with
    | error e => exact .same _
    | ok v =>
      refine .after (Login.asks_first fun l hl => .username hl) fun worked => ?_
      cases worked with
      | false => exact .same _
      | true => exact .tries _
  refine .after (Routine.asks_request .openPage) fun opened => ?_
  cases opened with
  | error e => exact .same _
  | ok v =>
    refine Routine.Apart.bind ?_ _
    by_cases henabled : r.settings.login.enabled = true
    · have henabled' : (r.withPassword password).settings.login.enabled = true := henabled
      rw [if_pos henabled, if_pos henabled']
      exact hlogin _ rfl
    · have henabled' : ¬(r.withPassword password).settings.login.enabled = true := henabled
      rw [if_neg henabled, if_neg henabled']
      exact .same _

theorem inside_twin (hw : w.Blind page) (r : Run) (password : String) (cases : List TestCase)
    (hs : s.Reached w page) :
    Ended.ButForFills r.BeforePassword r.settings.login password w page s (inside r w cases s)
      (inside (r.withPassword password) w cases s) := by
  obtain ⟨before, tries, hbefore, htries, hpaired⟩ := (setUp_apart r password).run_twin hw hs
  refine ⟨before, tries, hbefore, htries, ?_⟩
  obtain ⟨e, s₁, t₁, hsetUp, hsetUp', h₁⟩ := hpaired.exists_of_eq
  unfold inside
  rw [hsetUp, hsetUp']
  rcases e with (e | u) | halt
  · exact .done rfl h₁
  · have hrunner : CaseRunner.ofSettings (r.withPassword password).settings (r.withPassword password).resolve
        (r.withPassword password).runId (r.withPassword password).targetUrl =
        CaseRunner.ofSettings r.settings r.resolve r.runId r.targetUrl := rfl
    obtain ⟨hresults, hhalt, hsession⟩ := runCases_twin hw
      (CaseRunner.ofSettings r.settings r.resolve r.runId r.targetUrl) cases h₁
    simp only [hrunner]
    generalize runCases _ w cases s₁ = x at hresults hhalt hsession ⊢
    generalize runCases _ w cases t₁ = y at hresults hhalt hsession ⊢
    obtain ⟨results, halt, s₂⟩ := x
    obtain ⟨results', halt', t₂⟩ := y
    obtain rfl : results = results' := hresults
    obtain rfl : halt = halt' := hhalt
    rcases halt with _ | halt
    · exact .done rfl hsession
    · cases halt with
      | breakdown b => exact .done rfl hsession
      | deadline => exact .halted hsession
      | stuck => exact .halted hsession
  · cases halt with
    | breakdown b => exact .done rfl h₁
    | deadline => exact .halted h₁
    | stuck => exact .halted h₁

theorem launched_twin (hw : w.Blind page) (r : Run) (password : String) (cases : List TestCase)
    (s : Session σ) (ht : t.Reached w page) :
    Ended.ButForFills r.BeforePassword r.settings.login password w page t (launched r w cases s t)
      (launched (r.withPassword password) w cases s t) := by
  refine (inside_twin hw r password cases ht).andThen fun p _ _ u u' hu => ?_
  refine (Routine.run_twin hw _ hu).andThen ?_
  rintro reply _ v v' rfl hv
  have hreported : ∀ x : Session σ, reported (r.withPassword password) w s p.1 p.2 x =
      reported r w s p.1 p.2 x := fun _ => rfl
  have hsame : reported r w s p.1 p.2 v = reported r w s p.1 p.2 v' := by
    rw [reported, reported, hv.moment, hv.now]
  rw [hreported, hsame]
  exact .done rfl hv

/-- Two whole runs that differ in the password. -/
theorem execute_twin {s : Session σ} (hw : w.Blind s.page) (r : Run) (password : String)
    (cases : List TestCase) :
    Ended.ButForFills r.BeforePassword r.settings.login password w s.page s (execute r w cases s)
      (execute (r.withPassword password) w cases s) := by
  have hlaunch : (r.withPassword password).launch = r.launch := rfl
  rw [execute_eq, execute_eq, hlaunch]
  refine .after (Routine.asks_request .launch) ⟨[], rfl⟩ fun launched t ht => ?_
  cases launched with
  | error e => exact .refl ht (List.append_nil _).symm
  | ok v => exact launched_twin hw r password cases s ht

/-- On a browser that does not tell what its fields were filled with, the password of the login has no
part in what a run reports, publishes and writes, nor in any request but the login's own fills of the
password field. -/
theorem execute_password_secret {s : Session σ} (hw : w.Blind s.page) (r : Run) (password : String)
    (cases : List TestCase) :
    ∃ report t t' events events',
      execute r w cases s = (report, t) ∧ execute (r.withPassword password) w cases s = (report, t') ∧
      t.progress = t'.progress ∧ t.files = t'.files ∧ t.events = s.events ++ events ∧
      t'.events = s.events ++ events' ∧ r.ApartInPassword password events events' := by
  obtain ⟨before, tries, hbefore, htries, hpaired⟩ := execute_twin hw r password cases
  obtain ⟨report, t, t', ht, ht', htwin⟩ := hpaired.exists_of_eq
  obtain ⟨after, hafter, hafter'⟩ := htwin.events
  refine ⟨report, t, t', _, _, ht, ht', htwin.progress, htwin.files, ?_, ?_, before, after, tries, hbefore,
    htries, rfl, rfl⟩
  · rw [hafter]
    simp only [List.append_assoc]
  · rw [hafter']
    simp only [List.append_assoc]

end Run

/-! ## Scripted browsers -/

namespace Browser

theorem pick_masked (c : Call) (rules : List Rule) (uses : List Nat) :
    pick c rules uses = pick c.masked rules uses := by
  have hword : c.masked.word = c.word := by cases c <;> rfl
  have hsubject : c.masked.subject = c.subject := by cases c <;> rfl
  induction rules generalizing uses with
  | nil => rfl
  | cons r rules ih => simp only [pick, hword, hsubject, ih]

theorem Script.answer_masked (p : Script) (uses : List Nat) (c : Call) :
    p.answer uses c = p.answer uses c.masked := by
  have hpick := pick_masked c p.rules uses
  have hword : c.masked.word = c.word := by cases c <;> rfl
  have hsubject : c.masked.subject = c.subject := by cases c <;> rfl
  have hvalue : p.value c.masked = p.value c := by cases c <;> rfl
  have houtcome : ∀ b, p.outcome c.masked b = p.outcome c b := by
    intro b
    cases b <;> simp only [outcome, hword, hsubject, hvalue]
  simp only [answer, hpick, hword, hsubject, houtcome]

theorem Script.after_masked (p : Script) (blocked : Bool) (opening : Timestamp) (page : List Nat)
    (made : List (Nat × Call)) : (p.world blocked opening).after page made =
      (p.world blocked opening).after page (maskedAll made) := by
  induction made generalizing page with
  | nil => rfl
  | cons q made ih =>
    have hpage : (p.answer page q.2).page = (p.answer page q.2.masked).page := by
      rw [← p.answer_masked]
    simp only [World.after, maskedAll, List.map_cons, List.foldl_cons, world, hpage] at ih ⊢
    exact ih _

theorem Script.blind_world (p : Script) (blocked : Bool) (opening : Timestamp) (page : List Nat) :
    (p.world blocked opening).Blind page where
  answers made made' time c c' hmade hc := by
    rw [p.after_masked, hmade, ← p.after_masked]
    have hanswer : ∀ uses, (p.world blocked opening).answer uses time c =
        (p.world blocked opening).answer uses time c' := by
      intro uses
      simp only [world]
      rw [p.answer_masked, hc, ← p.answer_masked]
    rw [hanswer]
    exact ⟨rfl, rfl, rfl⟩
  stores made made' time path hmade := rfl

/-- A page on which the first password field cannot be filled, and where nothing can be bought. -/
def guarded : Script where
  rules := [⟨"fill", "input[name=\"password\"]", none, 300, .fail (.driver "not editable")⟩,
    ⟨"click", "css=#buy", none, 200, .runOut none 500⟩]
  texts := []
  echoes := []
  screenshot := [1, 2, 3]

end Browser

namespace Run

/-- Two passwords that are filled in differently, and reported alike. -/
theorem execute_password_secret_guarded :
    let r : Run :=
      { runId := "run"
        settings :=
          { login := { enabled := true, username := "ann", password := "first" }
            evidence := { captureScreenshots := false, captureNetwork := true } }
        targetUrl := "https://x.test/"
        launch := ⟨.chromium, true, ⟨1280, 720⟩⟩
        resolve := StopWords.usual.resolver }
    let w := Browser.guarded.world false ⟨0, 0⟩
    let cases : List TestCase := [{ id := "buy", steps := ["Click css=#buy"] }]
    let s : Session (List Nat) := { page := [] }
    (Ended.traceThen (execute r w cases s) fun report _ =>
        report.cases.map fun x => x.steps.map (·.error)) =
        [[some "Could not find element to click: css=#buy"]] ∧
      (execute r w cases s).2.events ≠ (execute (r.withPassword "second") w cases s).2.events ∧
      ∃ report t t' events events',
        execute r w cases s = (report, t) ∧ execute (r.withPassword "second") w cases s = (report, t') ∧
        t.progress = t'.progress ∧ t.files = t'.files ∧ t.events = s.events ++ events ∧
        t'.events = s.events ++ events' ∧ r.ApartInPassword "second" events events' := by
  intro r w cases s
  have hw : w.Blind s.page := Browser.guarded.blind_world false ⟨0, 0⟩ []
  exact ⟨by decide +kernel, by decide +kernel, execute_password_secret hw r "second" cases⟩

end Run

end PlainSteps
