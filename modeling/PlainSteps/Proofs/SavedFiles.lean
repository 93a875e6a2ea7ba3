import Mathlib.Data.List.Nodup
import PlainSteps.Proofs.EvidencePaths
import PlainSteps.Proofs.NetworkAttribution

/-!
# The files that a step saves

* `lookup_written` : a file is as it was saved last at its path.
* `Saved` : the files saved between two sessions are, in order, at some of given paths, and the
  screenshots recorded meanwhile describe them. `Saved.kept` : where these paths are different, nothing
  that is saved is lost.
* `CaseRun.oneStep_saved` : a step saves at most one file, at the path of that step.

Only the screenshot at the end of a step is written to a file: an action has none to write
(`Step.saveless_perform`), nor has what comes before the cases (`Run.saveless_setUp`).
-/

namespace PlainSteps

variable {σ α β : Type}

/-! ## Files -/

/-- A file with its path. -/
abbrev SavedFile := String × List UInt8

/-- Files with others written to them one after the other, each in place of any at its path. -/
def written (files new : List SavedFile) : List SavedFile :=
  new.foldl (fun files f => f :: files.filter (·.1 != f.1)) files

theorem written_append (files new more : List SavedFile) :
    written files (new ++ more) = written (written files new) more :=
  List.foldl_append

theorem lookup_filter_of_ne {path path' : String} (h : path ≠ path') (files : List SavedFile) :
    (files.filter (·.1 != path')).lookup path = files.lookup path := by
  induction files with
  | nil => rfl
  | cons f files ih =>
    by_cases hf : f.1 = path'
    · have hne : (path == f.1) = false := by simpa [hf] using h
      rw [List.filter_cons_of_neg (by simp [hf]), ih, List.lookup_cons, hne]
    · rw [List.filter_cons_of_pos (by simp [hf]), List.lookup_cons, List.lookup_cons, ih]

theorem lookup_written (files new : List SavedFile) (path : String) :
    (written files new).lookup path = (new.reverse.lookup path).or (files.lookup path) := by
  induction new generalizing files with
  | nil => rfl
  | cons f new ih =>
    rw [written, List.foldl_cons, ← written, ih, List.reverse_cons, List.lookup_append,
      Option.or_assoc]
    congr 1
    by_cases h : path = f.1
    · rw [h, List.lookup_cons_self, List.lookup_cons_self]
      rfl
    · have hne : (path == f.1) = false := by simpa using h
      rw [List.lookup_cons, List.lookup_cons, hne, lookup_filter_of_ne h]
      rfl

theorem lookup_of_nodup {files : List SavedFile} (h : (files.map Prod.fst).Nodup) {f : SavedFile}
    (hf : f ∈ files) : files.lookup f.1 = some f.2 := by
  induction files with
  | nil => cases hf
  | cons g files ih =>
    obtain ⟨hg, hrest⟩ := List.nodup_cons.mp h
    rcases List.mem_cons.mp hf with rfl | hf
    · exact List.lookup_cons_self
    · have hne : (f.1 == g.1) = false := by
        simp only [beq_eq_false_iff_ne]
        intro heq
        exact hg (heq ▸ List.mem_map_of_mem hf)
      rw [List.lookup_cons, hne]
      exact ih hrest hf

/-- What a screenshot says of a file. -/
def Screenshot.Describes (x : Screenshot) (f : SavedFile) : Prop :=
  x.path = f.1 ∧ x.bytes = f.2.length ∧ x.sha256 = Digest.hexDigest f.2

/-- Files are saved between two sessions at some of these paths, in this order, and screenshots recorded
meanwhile describe them. -/
structure Saved (paths : List String) (files : List SavedFile) (shots : List Screenshot)
    (s t : Session σ) : Prop where
  written : t.files = written s.files files
  inOrder : (files.map Prod.fst).Sublist paths
  described : ∀ x ∈ shots, ∃ f ∈ files, x.Describes f

namespace Saved

variable {paths paths' : List String} {files files' : List SavedFile} {shots shots' : List Screenshot}
  {s t u : Session σ}

theorem nil (h : t.files = s.files) : Saved paths [] [] s t :=
  ⟨h, List.nil_sublist _, by simp⟩

theorem append (h : Saved paths files shots s t) (h' : Saved paths' files' shots' t u) :
    Saved (paths ++ paths') (files ++ files') (shots ++ shots') s u where
  written := by rw [h'.written, h.written, written_append]
  inOrder := by
    rw [List.map_append]
    exact h.inOrder.append h'.inOrder
  described := by
    intro x hx
    rcases List.mem_append.mp hx with hx | hx
    · obtain ⟨f, hf, hdescribes⟩ := h.described x hx
      exact ⟨f, List.mem_append_left _ hf, hdescribes⟩
    · obtain ⟨f, hf, hdescribes⟩ := h'.described x hx
      exact ⟨f, List.mem_append_right _ hf, hdescribes⟩

theorem mono (h : Saved paths files shots s t) (hpaths : paths.Sublist paths')
    (hshots : shots' ⊆ shots) : Saved paths' files shots' s t :=
  ⟨h.written, h.inOrder.trans hpaths, fun x hx => h.described x (hshots hx)⟩

theorem congr {s' t' : Session σ} (h : Saved paths files shots s t) (hs : s'.files = s.files)
    (ht : t'.files = t.files) : Saved paths files shots s' t' :=
  ⟨by rw [ht, hs, h.written], h.inOrder, h.described⟩

/-- Where all paths are different, nothing that is saved is lost. -/
theorem kept (h : Saved paths files shots s t) (hpaths : paths.Nodup) :
    (files.map Prod.fst).Nodup ∧ (∀ f ∈ files, t.files.lookup f.1 = some f.2) ∧
      ∀ x ∈ shots, ∃ image, t.files.lookup x.path = some image ∧ x.Describes (x.path, image) := by
  have hnodup := h.inOrder.nodup hpaths
  have hkept : ∀ f ∈ files, t.files.lookup f.1 = some f.2 := by
    intro f hf
    have hreverse : (files.reverse.map Prod.fst).Nodup := by simpa using hnodup
    rw [h.written, lookup_written, lookup_of_nodup hreverse (List.mem_reverse.mpr hf), Option.some_or]
  refine ⟨hnodup, hkept, fun x hx => ?_⟩
  obtain ⟨f, hf, hpath, hdescribes⟩ := h.described x hx
  exact ⟨f.2, hpath ▸ hkept f hf, rfl, hdescribes⟩

end Saved

/-! ## Routines -/

namespace Routine

/-- The files that a routine saves. -/
def saved (w : World σ) (d : Option Nat) : Routine α → Session σ → List SavedFile
  | done _, _ => []
  | call c limit next, s =>
    Ended.traceThen (s.ask w d c limit) fun reply t => (next reply).saved w d t
  | pause ms next, s =>
    match s.elapse w d (min Session.longest ms) with
    | (true, t) => next.saved w d t
    | (false, _) => []
  | save path bytes next, s =>
    if w.stores s.page s.now path then
      (path, bytes) :: (next true).saved w d (s.write path bytes)
    else (next false).saved w d s

theorem saved_bind (w : World σ) (d : Option Nat) (r : Routine α) (f : α → Routine β)
    (s : Session σ) : (r.bind f).saved w d s =
      r.saved w d s ++ Ended.traceThen (r.run w d s) fun a t => (f a).saved w d t := by
  induction r generalizing s with
  | done a => rfl
  | call c limit next ih =>
    rw [bind, saved, saved, run_call]
    rcases s.ask w d c limit with ⟨reply | h, t⟩
    · exact ih reply t
    · rfl
  | pause ms next ih =>
    simp only [bind, saved, run]
    rcases s.elapse w d (min Session.longest ms) with ⟨⟨⟩ | ⟨⟩, t⟩
    · rfl
    · exact ih t
  | save path bytes next ih =>
    simp only [bind, saved, run]
    split
    · rw [ih, List.cons_append]
    · exact ih _ _

theorem files_ask (w : World σ) (d : Option Nat) (c : Call) (limit : Option Nat) (s : Session σ) :
    (s.ask w d c limit).2.files = s.files := by
  simp only [Session.ask]
  rcases waitFor limit (w.answer s.page s.now c).delay with _ | ⟨ms, ended⟩
  · cases d <;> rfl
  · simp only
    split <;> rfl

theorem files_run (w : World σ) (d : Option Nat) (r : Routine α) (s : Session σ) :
    (r.run w d s).2.files = written s.files (r.saved w d s) := by
  induction r generalizing s with
  | done a => rfl
  | call c limit next ih =>
    have hfiles := files_ask w d c limit s
    rw [saved, run_call, ← hfiles]
    rcases s.ask w d c limit with ⟨reply | h, t⟩
    · exact ih reply t
    · rfl
  | pause ms next ih =>
    simp only [saved, run, Session.elapse]
    by_cases hreach : Session.reaches w d s.now (s.now + min Session.longest ms) = true
    · simp only [if_pos hreach]
      exact ih _
    · simp only [if_neg hreach]
      rfl
  | save path bytes next ih =>
    simp only [saved, run]
    split
    · exact ih true (s.write path bytes)
    · exact ih false s

/-- The routine has no file to write. -/
def Saveless : Routine α → Prop
  | done _ => True
  | call _ _ next => ∀ reply, (next reply).Saveless
  | pause _ next => next.Saveless
  | save _ _ _ => False

theorem saveless_bind {r : Routine α} {f : α → Routine β} (hr : r.Saveless)
    (hf : ∀ a, (f a).Saveless) : (r.bind f).Saveless := by
  induction r with
  | done a => exact hf a
  | call c limit next ih => exact fun reply => ih reply (hr reply)
  | pause ms next ih => exact ih hr
  | save path bytes next ih => exact hr.elim

theorem saved_of_saveless {r : Routine α} (hr : r.Saveless) (w : World σ) (d : Option Nat)
    (s : Session σ) : r.saved w d s = [] := by
  induction r generalizing s with
  | done a => rfl
  | call c limit next ih =>
    rw [saved]
    rcases s.ask w d c limit with ⟨reply | h, t⟩
    · exact ih reply (hr reply) t
    · rfl
  | pause ms next ih =>
    simp only [saved]
    split
    · exact ih hr _
    · rfl
  | save path bytes next ih => exact hr.elim

theorem saveless_request (c : Call) : (request c).Saveless := by
  rintro (v | e | _) <;> trivial

theorem saveless_bounded (operation : String) (timeout : Nat) (c : Call) :
    (bounded operation timeout c).Saveless := by
  rintro (v | e | _) <;> trivial

theorem saveless_rest (ms : Nat) : (rest ms).Saveless := by
  unfold rest
  split <;> trivial

end Routine

/-! ## Actions and logins -/

namespace Step

open Routine

theorem saveless_attempts (kind : ActionKind) (target : Target) (timeout : Nat) (ask : String → Call)
    (ls : List String) : (attempts kind target timeout ask ls).Saveless := by
  induction ls with
  | nil => trivial
  | cons l ls ih =>
    refine saveless_bind (saveless_bounded _ _ _) fun result => ?_
    rcases result with e | v
    · simp only
      split
      · trivial
      · exact ih
    · trivial

theorem saveless_element (x : Context) (kind : ActionKind) (target : Target)
    (ask : String → Nat → Call) : (element x kind target ask).Saveless := by
  refine saveless_bind (saveless_attempts _ _ _ _ _) fun result => ?_
  cases result <;> trivial

theorem saveless_present (x : Context) (kind : ActionKind) (target : Target) (state : ElementState)
    (operation : String) (explain : BrowserError → StepError) :
    (present x kind target state operation explain).Saveless := by
  unfold present
  split
  · trivial
  · refine saveless_bind (saveless_bounded _ _ _) fun result => ?_
    cases result <;> trivial

theorem saveless_probe (x : Context) (target : Target) (state : ElementState) :
    (probe x target state).Saveless := by
  unfold probe
  split
  · trivial
  · refine saveless_bind (saveless_bounded _ _ _) fun result => ?_
    cases result <;> trivial

theorem saveless_whole (operation : String) (timeout : Nat) (c : Call) :
    (whole operation timeout c).Saveless := by
  refine saveless_bind (saveless_bounded _ _ _) fun result => ?_
  cases result <;> trivial

theorem saveless_perform (x : Context) (action : Action) (vars : Variables) :
    (perform x action vars).Saveless := by
  induction action generalizing vars with
  | navigate url => exact saveless_bind (saveless_whole _ _ _) fun _ => trivial
  | click target => exact saveless_bind (saveless_element x _ _ _) fun _ => trivial
  | fill value target => exact saveless_bind (saveless_element x _ _ _) fun _ => trivial
  | store source name =>
    refine saveless_bind (saveless_attempts _ _ _ _ _) fun result => ?_
    cases result <;> trivial
  | verify target => exact saveless_bind (saveless_present x _ _ _ _ _) fun _ => trivial
  | waitFor target state => exact saveless_bind (saveless_present x _ _ _ _ _) fun _ => trivial
  | waitForLoad => exact saveless_bind (saveless_whole _ _ _) fun _ => trivial
  | waitDuration seconds =>
    simp only [perform]
    split <;> trivial
  | conditional target condition consequence ih =>
    refine saveless_bind (saveless_probe x target _) fun holds => ?_
    cases holds with
    | false => trivial
    | true => exact ih vars
  | unknown text => trivial

end Step

namespace Login

open Routine

theorem saveless_stage (reason : String) (ask : String → Call) (locators : List String)
    {next : Routine (Except RunError Unit)} (hnext : next.Saveless) :
    (stage reason ask locators next).Saveless := by
  have hfirst : (first ask locators).Saveless := by
    induction locators with
    | nil => trivial
    | cons l ls ih =>
      refine saveless_bind (saveless_request _) fun result => ?_
      cases result with
      | error e => exact ih
      | ok v => trivial
  refine saveless_bind hfirst fun worked => ?_
  cases worked with
  | false => trivial
  | true => exact hnext

theorem saveless_perform (login : LoginSettings) (targetUrl : String) (navigationTimeout : Nat) :
    (perform login targetUrl navigationTimeout).Saveless := by
  refine saveless_bind (saveless_request _) fun result => ?_
  cases result with
  | error e => trivial
  | ok v =>
    refine saveless_stage _ _ _ (saveless_stage _ _ _ (saveless_stage _ _ _ ?_))
    exact saveless_bind (saveless_request _) fun _ => trivial

end Login

theorem Run.saveless_setUp (r : Run) : r.setUp.Saveless := by
  refine Routine.saveless_bind (Routine.saveless_request _) fun opened => ?_
  cases opened with
  | error e => trivial
  | ok v =>
    refine Routine.saveless_bind ?_ fun ready => ?_
    · split
      · exact Login.saveless_perform _ _ _
      · trivial
    · cases ready with
      | error e => trivial
      | ok u =>
        refine Routine.saveless_bind (Routine.saveless_request _) fun result => ?_
        cases result <;> trivial

/-! ## Steps -/

/-- The screenshots recorded in what a routine ends with. -/
def Ended.shots (recorded : α → List Screenshot) : Ended α → List Screenshot
  | done a => recorded a
  | halted _ => []

namespace Saved

variable {paths paths' : List String} {files : List SavedFile} {s : Session σ}

theorem of_saveless {r : Routine α} (hr : r.Saveless) (w : World σ) (d : Option Nat)
    (s : Session σ) : Saved [] [] [] s (r.run w d s).2 :=
  .nil (by rw [Routine.files_run, Routine.saved_of_saveless hr]; rfl)

theorem andThen {x : Ended α × Session σ} {f : α → Session σ → Ended β × Session σ}
    {more : α → Session σ → List SavedFile} {recorded : β → List Screenshot}
    (hx : Saved paths files [] s x.2)
    (hf : ∀ a t, x = (.done a, t) →
      Saved paths' (more a t) ((f a t).1.shots recorded) t (f a t).2) :
    Saved (paths ++ paths') (files ++ Ended.traceThen x more) ((Ended.andThen x f).1.shots recorded)
      s (Ended.andThen x f).2 := by
  rcases x with ⟨a | h, t⟩
  · exact hx.append (hf a t rfl)
  · rw [Ended.traceThen_halted, List.append_nil]
    exact hx.mono (List.sublist_append_left _ _) (List.Subset.refl _)

end Saved

namespace Routine

/-- The routine saves files at no other paths, and a screenshot that it ends with describes one. -/
def Saves (paths : List String) (r : Routine (Option Screenshot)) : Prop :=
  ∀ {σ : Type} (w : World σ) (d : Option Nat) (s : Session σ),
    Saved paths (r.saved w d s) ((r.run w d s).1.shots Option.toList) s (r.run w d s).2

variable {paths : List String}

theorem saves_none : (done none : Routine (Option Screenshot)).Saves paths :=
  fun _ _ _ => .nil rfl

theorem saves_bind {q : Routine α} {f : α → Routine (Option Screenshot)} (hq : q.Saveless)
    (hf : ∀ a, (f a).Saves paths) : (q.bind f).Saves paths := by
  intro σ w d s
  rw [saved_bind, run_bind, saved_of_saveless hq]
  exact (Saved.of_saveless hq w d s).andThen fun a t _ => hf a w d t

theorem saves_before {r : Routine (Option Screenshot)} (hr : r.Saves paths) {q : Routine α}
    (hq : q.Saveless) : (r.bind fun x => q.bind fun _ => done x).Saves paths := by
  intro σ w d s
  have hsaved := hr w d s
  rw [saved_bind, run_bind]
  rcases hrun : r.run w d s with ⟨x | h, t⟩
  · rw [hrun] at hsaved
    have hq' : (q.bind fun _ => done x).Saveless := saveless_bind hq fun _ => trivial
    have hboth := hsaved.append (.of_saveless hq' w d t)
    rw [Ended.traceThen_done, saved_of_saveless hq', Ended.andThen_done]
    refine hboth.mono (by simp) ?_
    rw [List.append_nil, run_bind]
    rcases q.run w d t with ⟨a | h, u⟩
    · exact List.Subset.refl _
    · exact List.nil_subset _
  · rw [hrun] at hsaved
    rwa [Ended.traceThen_halted, List.append_nil]

end Routine

namespace Step

open Routine

theorem saves_keepScreenshot (folder : String) (index : Nat) (image : List UInt8) :
    (keepScreenshot folder index image).Saves [Evidence.file folder index] := by
  intro σ w d s
  simp only [keepScreenshot, saved, run]
  split
  · refine ⟨rfl, List.Sublist.refl _, fun x hx => ?_⟩
    obtain rfl : x = _ := List.mem_singleton.mp hx
    exact ⟨_, List.mem_singleton.mpr rfl, rfl, rfl, rfl⟩
  · exact .nil rfl

theorem saves_close (x : Context) (index : Nat) {folder : String} (h : ∀ f ∈ x.evidence, f = folder) :
    (close x index).Saves [Evidence.file folder index] := by
  refine saves_before ?_ (saveless_rest _)
  rcases hevidence : x.evidence with _ | f
  · exact saves_none
  · obtain rfl := h f hevidence
    refine saves_bind (saveless_request _) fun result => ?_
    cases result with
    | error e => exact saves_none
    | ok v => exact saves_keepScreenshot f index v.bytes

end Step

theorem Session.files_drain (s : Session σ) : s.drain.2.files = s.files := by
  unfold drain
  split <;> rfl

namespace CaseRun

/-- The path at which a step of a case may save a screenshot. -/
def shotPath (r : CaseRunner) (caseId : String) (index : Nat) : String :=
  Evidence.file (Evidence.folder r.evidence.outputDir r.runId caseId) index

/-- The files that a step saves, up to its end or to the deadline. -/
def stepSaved (r : CaseRunner) (w : World σ) (d : Option Nat) (caseId raw : String) (index : Nat)
    (vars : Variables) (s : Session σ) : List SavedFile :=
  (routine r caseId raw index vars).saved w d
    (beginStep r w caseId index (Sentence.normalize (vars.substitute raw)) s)

theorem saves_routine (r : CaseRunner) (caseId raw : String) (index : Nat) (vars : Variables) :
    (routine r caseId raw index vars).Saves [shotPath r caseId index] := by
  refine Routine.saves_bind (Step.saveless_perform _ _ _) fun _ => Step.saves_close _ _ ?_
  intro f hf
  simp only [CaseRunner.context] at hf
  split at hf
  · exact (Option.some.inj hf).symm
  · cases hf

theorem oneStep_saved (r : CaseRunner) (w : World σ) (d : Option Nat) (caseId raw : String)
    (index : Nat) (vars : Variables) (s : Session σ) :
    Saved [shotPath r caseId index] (stepSaved r w d caseId raw index vars s)
      ((oneStep r w d caseId raw index vars s).1.shots fun p => p.1.screenshot.toList) s
      (oneStep r w d caseId raw index vars s).2 := by
  have hsaved := saves_routine r caseId raw index vars w d
    (beginStep r w caseId index (Sentence.normalize (vars.substitute raw)) s)
  rw [routine, Routine.run_bind] at hsaved
  rcases e : oneStep r w d caseId raw index vars s with ⟨⟨result, vars'⟩ | h, t⟩
  · obtain ⟨verdict, t₁, screenshot, t₂, e₁, e₂, rfl, rfl⟩ := oneStep_eq_done e
    rw [e₁, Ended.andThen_done, e₂] at hsaved
    exact hsaved.congr rfl t₂.files_drain
  · rcases oneStep_eq_halted e with e₁ | ⟨p, t₁, e₁, e₂⟩
    · rw [e₁] at hsaved
      exact hsaved.congr rfl rfl
    · rw [e₁, Ended.andThen_done, e₂] at hsaved
      exact hsaved.congr rfl rfl

end CaseRun

end PlainSteps
