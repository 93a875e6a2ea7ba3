import PlainSteps.Proofs.EvidenceKept
import PlainSteps.Proofs.PathNames

/-!
# Screenshots stay below their root

`Run.evidence_below_root`: the path of a screenshot is its root, two components and the name of the file,
whatever the identifiers are, and a run saves its files at such paths only.

A component is kept as it is when it is sanitized again (`Evidence.kept_component`); it has no slash and no
point in it, so it is a name that leads neither to another root nor out of a folder
(`Evidence.isName_component`).
-/

namespace PlainSteps

namespace Evidence

/-- A root as it stands before a name: a slash follows it, unless it is empty or ends in one. -/
def opened (root : String) : String :=
  if root.isEmpty || root.toList.getLast? == some '/' then root else root ++ "/"

theorem join_eq_opened (root : String) {name : String} (h : '/' ∉ name.toList) :
    Path.join root name = opened root ++ name := by
  have hhead : name.toList.head? ≠ some '/' := fun hslash => h (List.mem_of_head? hslash)
  rw [Path.join, if_neg (by simpa using hhead), opened]
  split <;> rfl

theorem isName_component (id : String) : Path.IsName (component id) where
  ne_empty := (kept_component id).1
  ne_here := by
    intro h
    have hpoint := (kept_component id).2 '.' (by rw [h]; decide)
    exact absurd hpoint (by decide)
  no_slash := slash_not_mem_component id

theorem isName_fileName (index : Nat) : Path.IsName (fileName index) where
  ne_empty h := absurd (congrArg String.toList h) (by simp [fileName])
  ne_here h := absurd (congrArg String.toList h) (by simp [fileName])
  no_slash := slash_not_mem_fileName index

theorem file_eq_below (root runId id : String) (index : Nat) :
    file (folder root runId id) index =
      Path.below root [component runId, component id, fileName index] := rfl

theorem file_eq_opened (root runId id : String) (index : Nat) :
    file (folder root runId id) index =
      opened root ++ component runId ++ "/" ++ component id ++ "/step-" ++ toString (index + 1) ++ ".png" := by
  have hname : "/" ++ fileName index = "/step-" ++ toString (index + 1) ++ ".png" := by
    rw [← String.toList_inj]
    simp [fileName]
  rw [file_folder_eq, folder_eq, join_eq_opened root (slash_not_mem_component runId), String.append_assoc,
    hname]
  simp only [String.append_assoc]

theorem components_file (root runId id : String) (index : Nat) :
    Path.components (file (folder root runId id) index) =
      Path.components root ++ [component runId, component id, fileName index] := by
  rw [file_eq_below]
  refine Path.components_below root ?_
  simp only [List.forall_mem_cons, List.not_mem_nil, false_implies, implies_true, and_true]
  exact ⟨isName_component runId, isName_component id, isName_fileName index⟩

end Evidence

namespace Run

open Evidence

variable {σ : Type}

theorem path_of_mem_saved {r : Run} {w : World σ} {cases : List TestCase} {s : Session σ} {f : SavedFile}
    (h : f ∈ saved r w cases s) :
    ∃ c ∈ cases, ∃ i < c.steps.length,
      f.1 = file (folder r.settings.evidence.outputDir r.runId c.id) i := by
  have hpath := (execute_saved r w cases s).inOrder.subset (List.mem_map_of_mem h)
  obtain ⟨c, hc, hshot⟩ := List.mem_flatMap.mp hpath
  obtain ⟨i, hi, hfile⟩ := List.mem_map.mp hshot
  exact ⟨c, hc, i, List.mem_range.mp hi, hfile.symm⟩

/-- The path of a screenshot is the root, then two components and the name of the file, and nothing else
becomes part of it. A component has a character, all its characters are letters and digits of ASCII, hyphens
and underscores, it is the identifier itself if that is so written, and it is kept when it is sanitized
again. All that a run saves is at such paths below its root. -/
theorem evidence_below_root (r : Run) (w : World σ) (cases : List TestCase) (s : Session σ) :
    (∀ (root runId id : String) (index : Nat),
      file (folder root runId id) index =
          opened root ++ component runId ++ "/" ++ component id ++ "/step-" ++ toString (index + 1) ++ ".png" ∧
        Path.components (file (folder root runId id) index) =
          Path.components root ++ [component runId, component id, fileName index]) ∧
    (∀ id, Kept (component id) ∧ (Kept id → component id = id) ∧ component (component id) = component id) ∧
    ∀ f ∈ saved r w cases s, ∃ c ∈ cases, ∃ i < c.steps.length,
      f.1 = file (folder r.settings.evidence.outputDir r.runId c.id) i := by
  refine ⟨fun root runId id index => ?_, fun id => ?_, fun f hf => path_of_mem_saved hf⟩
  · exact ⟨file_eq_opened root runId id index, components_file root runId id index⟩
  · exact ⟨kept_component id, component_of_kept, component_component id⟩

/-- Identifiers that would lead out of the root. -/
example : file (folder "out" ".." "/etc") 0 = "out/__-5ec1f7e7/_etc-2824684d/step-1.png" := by decide +kernel

end Run

end PlainSteps
