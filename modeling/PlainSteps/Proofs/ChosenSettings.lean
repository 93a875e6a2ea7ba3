import PlainSteps.Settings.File

/-!
# Settings files that set some of the fields

`Settings.load_chosen`: a file that sets any of the fields, in any order and each with a value of its
type, gives the usual settings with these fields replaced, unless they are invalid. The one exception is
the size of the page: a file that sets it has to set both its width and its height.

`Setting` is a field as a file sets it, and `Chosen` a section with some of its fields. A reader that asks
for a field by its name finds the value of the setting with that name, and without one the usual value
(`fieldOr_settings`); so a section is read field by field (`browser?_chosen` and its companions), once each
reader gives back what a setting puts there and other settings leave that alone (`Reads`).
-/

namespace PlainSteps

/-- A field that a file sets: which one it is, the name it has in the file, its value there, and what it
changes. -/
structure Setting (σ : Type) where
  field : String
  name : String := field
  value : Toml
  set : σ → σ

/-- The fields of a section. -/
class SectionField (φ : Type) (σ : outParam Type) where
  setting : φ → Setting σ

open SectionField (setting)

/-- Some fields of a section with their values, in any order and each at most once. -/
structure Chosen (φ : Type) {σ : Type} [SectionField φ σ] where
  fields : List φ
  distinct : (fields.map fun f => (setting f).field).Nodup

section chosen

variable {φ σ : Type} [SectionField φ σ]

def Chosen.settings (c : Chosen φ) : List (Setting σ) := c.fields.map setting

/-- The names and values of settings. -/
def entries (ss : List (Setting σ)) : List (String × Toml) := ss.map fun s => (s.name, s.value)

/-- The section in a file. -/
def Chosen.toToml (c : Chosen φ) : Toml := .table (entries c.settings)

/-- A record with settings put into it. -/
def putInto (usual : σ) (ss : List (Setting σ)) : σ := ss.foldr Setting.set usual

/-- A section with the chosen fields replaced. -/
def Chosen.over (c : Chosen φ) (usual : σ) : σ := putInto usual c.settings

end chosen

/-! ## The fields -/

inductive ViewportField where
  | width (n : UInt32)
  | height (n : UInt32)

instance : SectionField ViewportField Viewport where
  setting
    | .width n => { field := "width", value := .nat n.toNat, set := fun s => { s with width := n } }
    | .height n => { field := "height", value := .nat n.toNat, set := fun s => { s with height := n } }

/-- Both fields of the size are there. -/
def Chosen.Whole (c : Chosen ViewportField) : Prop :=
  (∃ n, .width n ∈ c.fields) ∧ ∃ n, .height n ∈ c.fields

inductive BrowserField where
  | kind (k : BrowserKind)
  | headless (b : Bool)
  | viewport (v : Chosen ViewportField)
  | nodeBinary (path : String)
  | driverDir (path : String)

instance : SectionField BrowserField BrowserSettings where
  setting
    | .kind k => { field := "type", value := .string k.name, set := fun s => { s with kind := k } }
    | .headless b =>
      { field := "headless", value := .boolean b, set := fun s => { s with headless := b } }
    | .viewport v =>
      { field := "viewport", value := v.toToml, set := fun s => { s with viewport := v.over {} } }
    | .nodeBinary path =>
      { field := "node_binary", value := .string path, set := fun s => { s with nodeBinary := path } }
    | .driverDir path =>
      { field := "driver_dir", value := .string path, set := fun s => { s with driverDir := path } }

/-- The two names of the login page. -/
inductive LoginUrlName where
  | snake
  | camel

def LoginUrlName.text : LoginUrlName → String
  | snake => "login_url"
  | camel => "loginUrl"

inductive LoginField where
  | enabled (b : Bool)
  | loginUrl (name : LoginUrlName) (url : String)
  | username (text : String)
  | password (text : String)
  | usernameLocators (locators : List String)
  | passwordLocators (locators : List String)
  | submitLocators (locators : List String)
  | timeoutMs (n : UInt64)

instance : SectionField LoginField LoginSettings where
  setting
    | .enabled b => { field := "enabled", value := .boolean b, set := fun s => { s with enabled := b } }
    | .loginUrl name url =>
      { field := "login_url", name := name.text, value := .string url,
        set := fun s => { s with loginUrl := some url } }
    | .username text =>
      { field := "username", value := .string text, set := fun s => { s with username := text } }
    | .password text =>
      { field := "password", value := .string text, set := fun s => { s with password := text } }
    | .usernameLocators ls =>
      { field := "username_locators", value := .strings ls,
        set := fun s => { s with usernameLocators := ls } }
    | .passwordLocators ls =>
      { field := "password_locators", value := .strings ls,
        set := fun s => { s with passwordLocators := ls } }
    | .submitLocators ls =>
      { field := "submit_locators", value := .strings ls,
        set := fun s => { s with submitLocators := ls } }
    | .timeoutMs n =>
      { field := "timeout_ms", value := .nat n.toNat, set := fun s => { s with timeoutMs := n } }

inductive EvidenceField where
  | captureScreenshots (b : Bool)
  | captureNetwork (b : Bool)
  | outputDir (path : String)

instance : SectionField EvidenceField EvidenceSettings where
  setting
    | .captureScreenshots b =>
      { field := "capture_screenshots", value := .boolean b,
        set := fun s => { s with captureScreenshots := b } }
    | .captureNetwork b =>
      { field := "capture_network", value := .boolean b, set := fun s => { s with captureNetwork := b } }
    | .outputDir path =>
      { field := "output_dir", value := .string path, set := fun s => { s with outputDir := path } }

/-- A length of time in seconds as a file may write it. -/
inductive Seconds where
  | float (x : Number.Binary64)
  | whole (n : Int)

def Seconds.toToml : Seconds → Toml
  | float x => .float x
  | whole n => .integer n

def Seconds.double : Seconds → Number.Binary64
  | float x => x
  | whole n => .ofInt n

inductive ExecutionField where
  | caseTimeoutSecs (n : UInt64)
  | candidateTimeoutMs (n : UInt64)
  | waitTimeoutMs (n : UInt64)
  | navigationTimeoutMs (n : UInt64)
  | settleDelayMs (n : UInt64)
  | maxConditionalDepth (n : UInt64)
  | defaultWaitSecs (s : Seconds)

instance : SectionField ExecutionField ExecutionSettings where
  setting
    | .caseTimeoutSecs n =>
      { field := "case_timeout_secs", value := .nat n.toNat,
        set := fun s => { s with caseTimeoutSecs := n } }
    | .candidateTimeoutMs n =>
      { field := "candidate_timeout_ms", value := .nat n.toNat,
        set := fun s => { s with candidateTimeoutMs := n } }
    | .waitTimeoutMs n =>
      { field := "wait_timeout_ms", value := .nat n.toNat, set := fun s => { s with waitTimeoutMs := n } }
    | .navigationTimeoutMs n =>
      { field := "navigation_timeout_ms", value := .nat n.toNat,
        set := fun s => { s with navigationTimeoutMs := n } }
    | .settleDelayMs n =>
      { field := "settle_delay_ms", value := .nat n.toNat, set := fun s => { s with settleDelayMs := n } }
    | .maxConditionalDepth n =>
      { field := "max_conditional_depth", value := .nat n.toNat,
        set := fun s => { s with maxConditionalDepth := n } }
    | .defaultWaitSecs x =>
      { field := "default_wait_secs", value := x.toToml,
        set := fun s => { s with defaultWaitSecs := x.double } }

inductive StopWordsField where
  | click (words : List String)
  | fill (words : List String)
  | verify (words : List String)
  | store (words : List String)
  | wait (words : List String)

instance : SectionField StopWordsField StopWords where
  setting
    | .click ws => { field := "click", value := .strings ws, set := fun s => { s with click := ws } }
    | .fill ws => { field := "fill", value := .strings ws, set := fun s => { s with fill := ws } }
    | .verify ws => { field := "verify", value := .strings ws, set := fun s => { s with verify := ws } }
    | .store ws => { field := "store", value := .strings ws, set := fun s => { s with store := ws } }
    | .wait ws => { field := "wait", value := .strings ws, set := fun s => { s with wait := ws } }

inductive SettingsField where
  | browser (c : Chosen BrowserField)
  | login (c : Chosen LoginField)
  | evidence (c : Chosen EvidenceField)
  | execution (c : Chosen ExecutionField)
  | stopWords (c : Chosen StopWordsField)

instance : SectionField SettingsField Settings where
  setting
    | .browser c => { field := "browser", value := c.toToml, set := fun s => { s with browser := c.over {} } }
    | .login c =>
      { field := "authentication", value := c.toToml, set := fun s => { s with login := c.over {} } }
    | .evidence c =>
      { field := "evidence", value := c.toToml, set := fun s => { s with evidence := c.over {} } }
    | .execution c =>
      { field := "execution", value := c.toToml, set := fun s => { s with execution := c.over {} } }
    | .stopWords c =>
      { field := "resolver", value := c.toToml, set := fun s => { s with stopWords := c.over .usual } }

/-- Wherever the file sets the size of the page, it sets both its fields. -/
def Chosen.ViewportWhole (c : Chosen SettingsField) : Prop :=
  ∀ b, .browser b ∈ c.fields → ∀ v, .viewport v ∈ b.fields → v.Whole

namespace Settings

/-! ## Values -/

theorem word32?_nat (n : UInt32) : word32? (.nat n.toNat) = some n := by
  have hlt : n.toNat < Nat.pow 2 32 := n.toNat_lt
  have hint : (0 : Int) ≤ (n.toNat : Int) := Int.natCast_nonneg _
  simp [word32?, Toml.nat, hlt, hint]

theorem word64?_nat (n : UInt64) : word64? (.nat n.toNat) = some n := by
  have hlt : n.toNat < Nat.pow 2 64 := n.toNat_lt
  have hint : (0 : Int) ≤ (n.toNat : Int) := Int.natCast_nonneg _
  simp [word64?, Toml.nat, hlt, hint]

theorem texts?_strings (ss : List String) : texts? (.strings ss) = some ss := by
  have hmap : (ss.map Toml.string).mapM text? = some ss := by
    induction ss with
    | nil => rfl
    | cons s ss ih => simp [List.mapM_cons, ih, text?]
  exact hmap

theorem kind?_name (k : BrowserKind) : kind? (.string k.name) = some k := by
  cases k <;> rfl

theorem double?_seconds (x : Seconds) : double? x.toToml = some x.double := by
  cases x <;> rfl

/-! ## Fields by their names -/

section reads

variable {σ α : Type}

theorem lookup?_entries_of_ne {name : String} {ss : List (Setting σ)} (h : ∀ s ∈ ss, s.name ≠ name) :
    Toml.lookup? name (entries ss) = none := by
  have hfind : (entries ss).find? (·.1 == name) = none := by
    refine List.find?_eq_none.mpr fun e he => ?_
    obtain ⟨s, hs, rfl⟩ := List.mem_map.mp he
    simpa using h s hs
  rw [Toml.lookup?, hfind, Option.map_none]

theorem lookup?_entries_cons (name : String) (s : Setting σ) (ss : List (Setting σ)) :
    Toml.lookup? name (entries (s :: ss)) =
      if s.name = name then some s.value else Toml.lookup? name (entries ss) := by
  by_cases h : s.name = name <;> simp [Toml.lookup?, entries, h]

/-- A reader of the field of a name gives back what a setting with that name puts there, and a setting
with another name leaves it alone. -/
def Reads (name : String) (get : σ → α) (read : Toml → Option α) (s : Setting σ) : Prop :=
  (s.name = name → ∀ r, read s.value = some (get (s.set r))) ∧
    (s.name ≠ name → ∀ r, get (s.set r) = get r)

/-- A field is read as it is set, and without a setting it has its usual value. -/
theorem fieldOr_settings {name : String} {get : σ → α} {read : Toml → Option α}
    {ss : List (Setting σ)} (h : ∀ s ∈ ss, Reads name get read s) (usual : σ) :
    fieldOr (entries ss) name (get usual) read = some (get (putInto usual ss)) := by
  induction ss with
  | nil => rfl
  | cons s ss ih =>
    obtain ⟨hs, hss⟩ := List.forall_mem_cons.mp h
    have hput : putInto usual (s :: ss) = s.set (putInto usual ss) := rfl
    rw [fieldOr, lookup?_entries_cons, hput]
    by_cases hname : s.name = name
    · rw [if_pos hname]
      exact hs.1 hname _
    · rw [if_neg hname, hs.2 hname]
      exact ih hss

theorem bind_field {φ β : Type} [SectionField φ σ] {name : String} {get : σ → α}
    {read : Toml → Option α} (c : Chosen φ) (usual : σ)
    (h : ∀ f ∈ c.fields, Reads name get read (setting f)) (next : α → Option β) :
    (fieldOr (entries c.settings) name (get usual) read).bind next = next (get (c.over usual)) := by
  have hsettings : ∀ s ∈ c.settings, Reads name get read s := by
    intro s hs
    obtain ⟨f, hf, rfl⟩ := List.mem_map.mp hs
    exact h f hf
  rw [fieldOr_settings hsettings, Option.bind_some]
  rfl

theorem exists_field {φ : Type} [SectionField φ σ] {name : String} {get : σ → α}
    {read : Toml → Option α} (c : Chosen φ) (usual : σ) {f : φ} (hf : f ∈ c.fields)
    (hname : (setting f).name = name) (h : ∀ f ∈ c.fields, Reads name get read (setting f)) :
    ∃ v, Toml.lookup? name (entries c.settings) = some v ∧ read v = some (get (c.over usual)) := by
  have hfield := bind_field c usual h some
  rw [Option.bind_fun_some] at hfield
  cases hlookup : Toml.lookup? name (entries c.settings) with
  | none =>
    rw [Toml.lookup?, Option.map_eq_none_iff, List.find?_eq_none] at hlookup
    have hmem : ((setting f).name, (setting f).value) ∈ entries c.settings :=
      List.mem_map_of_mem (List.mem_map_of_mem hf)
    exact absurd (beq_iff_eq.mpr hname) (hlookup _ hmem)
  | some v =>
    rw [fieldOr, hlookup] at hfield
    exact ⟨v, rfl, hfield⟩

theorem lookup?_of_mem {ss : List (Setting σ)} (hdistinct : (ss.map (·.name)).Nodup) {s : Setting σ}
    (hs : s ∈ ss) : Toml.lookup? s.name (entries ss) = some s.value := by
  induction ss with
  | nil => cases hs
  | cons t ss ih =>
    obtain ⟨hnot, hdistinct⟩ := List.nodup_cons.mp hdistinct
    rw [lookup?_entries_cons]
    rcases List.mem_cons.mp hs with rfl | hs
    · exact if_pos rfl
    · have hne : t.name ≠ s.name := fun heq => hnot (List.mem_map.mpr ⟨s, hs, heq.symm⟩)
      rw [if_neg hne]
      exact ih hdistinct hs

theorem lookup?_settings_of_ne {φ : Type} [SectionField φ σ] {name : String} {c : Chosen φ}
    (h : ∀ f ∈ c.fields, (setting f).name ≠ name) : Toml.lookup? name (entries c.settings) = none := by
  refine lookup?_entries_of_ne fun s hs => ?_
  obtain ⟨f, hf, rfl⟩ := List.mem_map.mp hs
  exact h f hf

theorem fieldOr_eq_none {φ : Type} [SectionField φ σ] {read : Toml → Option α} (c : Chosen φ)
    (hnames : ∀ f : φ, (setting f).name = (setting f).field) {f : φ} (hf : f ∈ c.fields)
    (h : read (setting f).value = none) (usual : α) :
    fieldOr (entries c.settings) (setting f).name usual read = none := by
  have hdistinct : (c.settings.map (·.name)).Nodup := by
    have hfields : c.settings.map (·.name) = c.fields.map fun f => (setting f).field := by
      rw [Chosen.settings, List.map_map]
      exact List.map_congr_left fun f _ => hnames f
    rw [hfields]
    exact c.distinct
  have hlookup : Toml.lookup? (setting f).name (entries c.settings) = some (setting f).value :=
    lookup?_of_mem hdistinct (List.mem_map_of_mem hf)
  rw [fieldOr, hlookup]
  exact h

end reads

/-! ## Sections -/

theorem viewport?_whole {c : Chosen ViewportField} (h : c.Whole) :
    viewport? c.toToml = some (c.over {}) := by
  have hreads : ∀ f : ViewportField, Reads "width" (·.width) word32? (setting f) ∧
      Reads "height" (·.height) word32? (setting f) := by
    intro f
    cases f <;> simp [Reads, setting, word32?_nat]
  simp only [forall_and] at hreads
  obtain ⟨⟨w, hw⟩, ⟨n, hn⟩⟩ := h
  have hwname : (setting (.width w : ViewportField)).name = "width" := rfl
  have hnname : (setting (.height n : ViewportField)).name = "height" := rfl
  obtain ⟨v, hv, hwidth⟩ := exists_field c {} hw hwname fun f _ => hreads.1 f
  obtain ⟨v', hv', hheight⟩ := exists_field c {} hn hnname fun f _ => hreads.2 f
  have hfields : section? ["width", "height"] c.toToml = some (entries c.settings) := rfl
  rw [viewport?, hfields]
  simp only [Option.bind_eq_bind, Option.bind_some, hv, hwidth, hv', hheight]

theorem viewport?_partial {c : Chosen ViewportField} (h : ¬c.Whole) : viewport? c.toToml = none := by
  have hfields : section? ["width", "height"] c.toToml = some (entries c.settings) := rfl
  have hwidth : (¬∃ n, .width n ∈ c.fields) → Toml.lookup? "width" (entries c.settings) = none := by
    refine fun hnot => lookup?_settings_of_ne fun f hf => ?_
    cases f with
    | width n => exact absurd ⟨n, hf⟩ hnot
    | height n => simp [setting]
  have hheight : (¬∃ n, .height n ∈ c.fields) → Toml.lookup? "height" (entries c.settings) = none := by
    refine fun hnot => lookup?_settings_of_ne fun f hf => ?_
    cases f with
    | width n => simp [setting]
    | height n => exact absurd ⟨n, hf⟩ hnot
  rw [viewport?, hfields]
  by_cases hw : ∃ n, .width n ∈ c.fields
  · have hn : ¬∃ n, .height n ∈ c.fields := fun hn => h ⟨hw, hn⟩
    simp [hheight hn]
  · simp [hwidth hw]

theorem browser?_chosen {c : Chosen BrowserField} (h : ∀ v, .viewport v ∈ c.fields → v.Whole) :
    browser? c.toToml = some (c.over {}) := by
  have hreads : ∀ f : BrowserField, Reads "type" (·.kind) kind? (setting f) ∧
      Reads "headless" (·.headless) flag? (setting f) ∧
      Reads "node_binary" (·.nodeBinary) text? (setting f) ∧
      Reads "driver_dir" (·.driverDir) text? (setting f) := by
    intro f
    cases f <;> simp [Reads, setting, kind?_name, flag?, text?]
  have hviewport : ∀ f ∈ c.fields, Reads "viewport" (·.viewport) viewport? (setting f) := by
    intro f hf
    cases f with
    | viewport v => simp [Reads, setting, viewport?_whole (h v hf)]
    | _ => simp [Reads, setting]
  simp only [forall_and] at hreads
  obtain ⟨hkind, hheadless, hnode, hdriver⟩ := hreads
  refine (bind_field c {} (fun f _ => hkind f) _).trans ?_
  refine (bind_field c {} (fun f _ => hheadless f) _).trans ?_
  refine (bind_field c {} hviewport _).trans ?_
  refine (bind_field c {} (fun f _ => hnode f) _).trans ?_
  exact bind_field c {} (fun f _ => hdriver f) _

theorem evidence?_chosen (c : Chosen EvidenceField) : evidence? c.toToml = some (c.over {}) := by
  have hreads : ∀ f : EvidenceField,
      Reads "capture_screenshots" (·.captureScreenshots) flag? (setting f) ∧
      Reads "capture_network" (·.captureNetwork) flag? (setting f) ∧
      Reads "output_dir" (·.outputDir) text? (setting f) := by
    intro f
    cases f <;> simp [Reads, setting, flag?, text?]
  simp only [forall_and] at hreads
  obtain ⟨hscreenshots, hnetwork, hdir⟩ := hreads
  refine (bind_field c {} (fun f _ => hscreenshots f) _).trans ?_
  refine (bind_field c {} (fun f _ => hnetwork f) _).trans ?_
  exact bind_field c {} (fun f _ => hdir f) _

theorem execution?_chosen (c : Chosen ExecutionField) : execution? c.toToml = some (c.over {}) := by
  have hreads : ∀ f : ExecutionField,
      Reads "case_timeout_secs" (·.caseTimeoutSecs) word64? (setting f) ∧
      Reads "candidate_timeout_ms" (·.candidateTimeoutMs) word64? (setting f) ∧
      Reads "wait_timeout_ms" (·.waitTimeoutMs) word64? (setting f) ∧
      Reads "navigation_timeout_ms" (·.navigationTimeoutMs) word64? (setting f) ∧
      Reads "settle_delay_ms" (·.settleDelayMs) word64? (setting f) ∧
      Reads "max_conditional_depth" (·.maxConditionalDepth) word64? (setting f) ∧
      Reads "default_wait_secs" (·.defaultWaitSecs) double? (setting f) := by
    intro f
    cases f <;> simp [Reads, setting, word64?_nat, double?_seconds]
  simp only [forall_and] at hreads
  obtain ⟨hcase, hcandidate, hwait, hnavigation, hsettle, hdepth, hpause⟩ := hreads
  refine (bind_field c {} (fun f _ => hcase f) _).trans ?_
  refine (bind_field c {} (fun f _ => hcandidate f) _).trans ?_
  refine (bind_field c {} (fun f _ => hwait f) _).trans ?_
  refine (bind_field c {} (fun f _ => hnavigation f) _).trans ?_
  refine (bind_field c {} (fun f _ => hsettle f) _).trans ?_
  refine (bind_field c {} (fun f _ => hdepth f) _).trans ?_
  exact bind_field c {} (fun f _ => hpause f) _

theorem stopWords?_chosen (c : Chosen StopWordsField) :
    stopWords? c.toToml = some (c.over .usual) := by
  have hreads : ∀ f : StopWordsField, Reads "click" (·.click) texts? (setting f) ∧
      Reads "fill" (·.fill) texts? (setting f) ∧ Reads "verify" (·.verify) texts? (setting f) ∧
      Reads "store" (·.store) texts? (setting f) ∧ Reads "wait" (·.wait) texts? (setting f) := by
    intro f
    cases f <;> simp [Reads, setting, texts?_strings]
  simp only [forall_and] at hreads
  obtain ⟨hclick, hfill, hverify, hstore, hwait⟩ := hreads
  refine (bind_field c .usual (fun f _ => hclick f) _).trans ?_
  refine (bind_field c .usual (fun f _ => hfill f) _).trans ?_
  refine (bind_field c .usual (fun f _ => hverify f) _).trans ?_
  refine (bind_field c .usual (fun f _ => hstore f) _).trans ?_
  exact bind_field c .usual (fun f _ => hwait f) _

theorem loginUrl?_fields {fs : List LoginField} (h : (fs.map fun f => (setting f).field).Nodup) :
    loginUrl? (entries (fs.map setting)) = some (putInto ({} : LoginSettings) (fs.map setting)).loginUrl := by
  have hother : ∀ f : LoginField, (setting f).field ≠ "login_url" →
      (setting f).name ≠ "login_url" ∧ (setting f).name ≠ "loginUrl" ∧
        ∀ r, ((setting f).set r).loginUrl = r.loginUrl := by
    intro f hf
    cases f <;> simp_all [setting]
  induction fs with
  | nil => rfl
  | cons f fs ih =>
    rw [List.map_cons, List.nodup_cons] at h
    obtain ⟨hnot, hdistinct⟩ := h
    have hput : putInto ({} : LoginSettings) ((f :: fs).map setting) =
        (setting f).set (putInto {} (fs.map setting)) := rfl
    have hentries : entries ((f :: fs).map setting) = entries (setting f :: fs.map setting) := rfl
    by_cases hfield : (setting f).field = "login_url"
    · have habsent : ∀ name, name = "login_url" ∨ name = "loginUrl" →
          Toml.lookup? name (entries (fs.map setting)) = none := by
        intro name hname
        refine lookup?_entries_of_ne fun s hs => ?_
        obtain ⟨g, hg, rfl⟩ := List.mem_map.mp hs
        have hne : (setting g).field ≠ "login_url" := by
          intro heq
          exact hnot (hfield.trans heq.symm ▸ List.mem_map_of_mem hg)
        rcases hname with rfl | rfl
        · exact (hother g hne).1
        · exact (hother g hne).2.1
      rw [hput, hentries, loginUrl?, lookup?_entries_cons, lookup?_entries_cons, habsent _ (.inl rfl),
        habsent _ (.inr rfl)]
      cases f with
      | loginUrl name url => cases name <;> rfl
      | _ => simp [setting] at hfield
    · obtain ⟨hsnake, hcamel, hkeeps⟩ := hother f hfield
      rw [hput, hentries, loginUrl?, lookup?_entries_cons, lookup?_entries_cons, if_neg hsnake,
        if_neg hcamel, hkeeps]
      exact ih hdistinct

theorem login?_chosen (c : Chosen LoginField) : login? c.toToml = some (c.over {}) := by
  have hreads : ∀ f : LoginField, Reads "enabled" (·.enabled) flag? (setting f) ∧
      Reads "username" (·.username) text? (setting f) ∧
      Reads "password" (·.password) text? (setting f) ∧
      Reads "username_locators" (·.usernameLocators) texts? (setting f) ∧
      Reads "password_locators" (·.passwordLocators) texts? (setting f) ∧
      Reads "submit_locators" (·.submitLocators) texts? (setting f) ∧
      Reads "timeout_ms" (·.timeoutMs) word64? (setting f) := by
    intro f
    cases f with
    | loginUrl name url => cases name <;> simp [Reads, setting, LoginUrlName.text]
    | _ => simp [Reads, setting, flag?, text?, texts?_strings, word64?_nat]
  simp only [forall_and] at hreads
  obtain ⟨henabled, husername, hpassword, hname, hsecret, hsubmit, htimeout⟩ := hreads
  refine (bind_field c {} (fun f _ => henabled f) _).trans ?_
  refine (congrArg (Option.bind · _) (loginUrl?_fields c.distinct)).trans ?_
  refine (bind_field c {} (fun f _ => husername f) _).trans ?_
  refine (bind_field c {} (fun f _ => hpassword f) _).trans ?_
  refine (bind_field c {} (fun f _ => hname f) _).trans ?_
  refine (bind_field c {} (fun f _ => hsecret f) _).trans ?_
  refine (bind_field c {} (fun f _ => hsubmit f) _).trans ?_
  exact bind_field c {} (fun f _ => htimeout f) _

theorem browser?_partial {c : Chosen BrowserField} {v : Chosen ViewportField}
    (hv : .viewport v ∈ c.fields) (h : ¬v.Whole) : browser? c.toToml = none := by
  have hnames : ∀ f : BrowserField, (setting f).name = (setting f).field := by
    intro f
    cases f <;> rfl
  have hnone : fieldOr (entries c.settings) "viewport" ({} : Viewport) viewport? = none :=
    fieldOr_eq_none c hnames hv (viewport?_partial h) _
  have hreads : ∀ f : BrowserField, Reads "type" (·.kind) kind? (setting f) ∧
      Reads "headless" (·.headless) flag? (setting f) := by
    intro f
    cases f <;> simp [Reads, setting, kind?_name, flag?]
  simp only [forall_and] at hreads
  refine (bind_field c {} (fun f _ => hreads.1 f) _).trans ?_
  refine (bind_field c {} (fun f _ => hreads.2 f) _).trans ?_
  exact congrArg (Option.bind · _) hnone

/-! ## Files -/

theorem ofToml?_chosen {c : Chosen SettingsField} (h : c.ViewportWhole) :
    ofToml? c.toToml = some (c.over {}) := by
  have hbrowser : ∀ f ∈ c.fields, Reads "browser" (·.browser) browser? (setting f) := by
    intro f hf
    cases f with
    | browser b => simp [Reads, setting, browser?_chosen (h b hf)]
    | _ => simp [Reads, setting]
  have hreads : ∀ f : SettingsField, Reads "authentication" (·.login) login? (setting f) ∧
      Reads "evidence" (·.evidence) evidence? (setting f) ∧
      Reads "execution" (·.execution) execution? (setting f) ∧
      Reads "resolver" (·.stopWords) stopWords? (setting f) := by
    intro f
    cases f <;> simp [Reads, setting, login?_chosen, evidence?_chosen, execution?_chosen, stopWords?_chosen]
  simp only [forall_and] at hreads
  obtain ⟨hlogin, hevidence, hexecution, hstop⟩ := hreads
  refine (bind_field c {} hbrowser _).trans ?_
  refine (bind_field c {} (fun f _ => hlogin f) _).trans ?_
  refine (bind_field c {} (fun f _ => hevidence f) _).trans ?_
  refine (bind_field c {} (fun f _ => hexecution f) _).trans ?_
  exact bind_field c {} (fun f _ => hstop f) _

theorem ofToml?_partial {c : Chosen SettingsField} (h : ¬c.ViewportWhole) : ofToml? c.toToml = none := by
  have hnames : ∀ f : SettingsField, (setting f).name = (setting f).field := by
    intro f
    cases f <;> rfl
  obtain ⟨b, hb, v, hv, hpartial⟩ : ∃ b, .browser b ∈ c.fields ∧ ∃ v, .viewport v ∈ b.fields ∧ ¬v.Whole := by
    simpa [Chosen.ViewportWhole] using h
  have hnone : fieldOr (entries c.settings) "browser" ({} : BrowserSettings) browser? = none :=
    fieldOr_eq_none c hnames hb (browser?_partial hv hpartial) _
  exact congrArg (Option.bind · _) hnone

/-- A file that sets some fields, each with a value of its type, gives the usual settings with these
fields replaced, if they are valid; but a size of the page with a field missing is refused. -/
theorem load_chosen (c : Chosen SettingsField) {text : String} (h : Toml.read? text = some c.toToml) :
    (c.ViewportWhole → load (some text) =
      match (c.over {}).validate with
      | .error e => .error (.invalid e)
      | .ok () => .ok (c.over {})) ∧
    (¬c.ViewportWhole → load (some text) = .error .malformed) := by
  have hload : load (some text) = parse text := rfl
  constructor
  · intro hwhole
    rewrite [hload, parse, h, Option.bind_some, ofToml?_chosen hwhole]
    rfl
  · intro hpartial
    rw [hload, parse, h, Option.bind_some, ofToml?_partial hpartial]

/-- A file that sets the size of the page, the login page under its other name, and a pause as a whole
number. -/
def chosenFile : Chosen SettingsField where
  fields := [
    .execution ⟨[.defaultWaitSecs (.whole 2), .caseTimeoutSecs 60], by decide⟩,
    .login ⟨[.loginUrl .camel "/in"], by decide⟩,
    .browser ⟨[.viewport ⟨[.height 600, .width 800], by decide⟩], by decide⟩]
  distinct := by decide

/-- A file that sets the width of the page alone. -/
def widthFile : Chosen SettingsField where
  fields := [.browser ⟨[.viewport ⟨[.width 800], by decide⟩], by decide⟩]
  distinct := by decide

/-- All other fields keep their usual values; a width without a height is refused. -/
theorem load_chosen_files :
    load (some ("[execution]\ndefault_wait_secs = 2\ncase_timeout_secs = 60\n" ++
        "[authentication]\nloginUrl = \"/in\"\n[browser.viewport]\nheight = 600\nwidth = 800\n")) =
      .ok {
        browser := { viewport := { width := 800, height := 600 } }
        login := { loginUrl := some "/in" }
        execution := { caseTimeoutSecs := 60, defaultWaitSecs := .ofInt 2 } } ∧
    load (some "[browser.viewport]\nwidth = 800\n") = .error .malformed := by
  have hwhole : chosenFile.ViewportWhole := by
    intro b hb v hv
    simp only [chosenFile, List.mem_cons, reduceCtorEq, SettingsField.browser.injEq, List.not_mem_nil,
      false_or, or_false] at hb
    subst hb
    simp only [List.mem_singleton, BrowserField.viewport.injEq] at hv
    subst hv
    exact ⟨⟨800, by simp⟩, ⟨600, by simp⟩⟩
  have hpartial : ¬widthFile.ViewportWhole := by
    intro h
    obtain ⟨-, n, hn⟩ := h _ (List.mem_singleton_self _) _ (List.mem_singleton_self _)
    simp at hn
  exact ⟨(load_chosen chosenFile (by decide +kernel)).1 hwhole,
    (load_chosen widthFile (by decide +kernel)).2 hpartial⟩

end Settings

end PlainSteps
