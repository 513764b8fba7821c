/-
Timeline/Proofs/Program/Expansion.lean

What the expansion of a scenario does to a draft: it reports, defines labels and
appends steps, and nothing else (`Blocks.expand_induction`).  So errors stay, and
no `use` step is ever appended.
-/
import Timeline.Program.Compile

namespace Timeline

namespace Draft

/-- The steps of a draft are all executed as they are. -/
def UseFree (d : Draft) : Prop :=
  ∀ s ∈ d.steps, ∀ block, s.step.action ≠ .use block

end Draft

namespace Blocks

variable {blocks : Blocks}

/-- Expand one entry. -/
def expandEntry (blocks : Blocks) (path : List String) (position : Nat) (entry : Entry)
    (d : Draft) : Draft :=
  let location := d.locate path position
  match entry.read with
  | .error fault => d.report location [fault]
  | .ok step =>
    if step.shapeFaults ≠ [] then d.report location step.shapeFaults
    else
      match step.action with
      | .use block =>
        if block ∈ path then d.report location [.circularBlock block]
        else
          match blocks.get? block with
          | none => d.report location [.blockNotFound block]
          | some scenario => blocks.expand (block :: path) 0 scenario d
      | .label name => (d.define name path location).push step path
      | _ => d.push step path

theorem expand_nil {path : List String} {position : Nat} {d : Draft} :
    blocks.expand path position [] d = d := by
  rw [expand]

/-- Entries are expanded one after the other. -/
theorem expand_cons {path : List String} {position : Nat} {entry : Entry} {rest : List Entry}
    {d : Draft} :
    blocks.expand path position (entry :: rest) d
      = blocks.expand path (position + 1) rest (blocks.expandEntry path position entry d) := by
  rw [expand]
  congr 1
  unfold expandEntry
  rcases entry.read with fault | step
  · rfl
  · dsimp only
    split
    · rfl
    · rcases step.action with _ | _ | _ | _ | _ | _ | _ | _ | block | _ | _ | _ | _ | _ | _ | _ | _ <;>
        dsimp only
      split
      · rfl
      · split <;> rename_i h <;> simp [h]

/-- What holds of a draft after one entry, if it holds after the block that the entry may use. -/
theorem expandEntry_induction {P : Draft → Prop}
    (hreport : ∀ {d : Draft} location faults, faults ≠ [] → P d → P (d.report location faults))
    (hdefine : ∀ {d : Draft} name path location, P d → P (d.define name path location))
    (hpush : ∀ {d : Draft} {step : Step} path, (∀ block, step.action ≠ .use block) → P d →
      P (d.push step path))
    {path : List String} {position : Nat} {entry : Entry} {d : Draft}
    (hblock : ∀ {block : String} {scenario : Scenario}, block ∉ path →
      blocks.get? block = some scenario → P (blocks.expand (block :: path) 0 scenario d))
    (h : P d) : P (blocks.expandEntry path position entry d) := by
  unfold expandEntry
  rcases hread : entry.read with fault | step <;> dsimp only
  · exact hreport _ _ (by simp) h
  · split
    · exact hreport _ _ ‹_› h
    · rcases haction : step.action with
        _ | _ | _ | _ | _ | _ | name | _ | block | _ | _ | _ | _ | _ | _ | _ | _ <;> dsimp only
      case use =>
        split
        · exact hreport _ _ (by simp) h
        · rename_i hout
          split
          · exact hreport _ _ (by simp) h
          · exact hblock hout ‹_›
      case label => exact hpush _ (by simp [haction]) (hdefine _ _ _ h)
      all_goals exact hpush _ (by simp [haction]) h

/-- **What the expansion does.**  A property of drafts that reports, definitions and steps keep is
kept by the expansion. -/
theorem expand_induction {P : Draft → Prop}
    (hreport : ∀ {d : Draft} location faults, faults ≠ [] → P d → P (d.report location faults))
    (hdefine : ∀ {d : Draft} name path location, P d → P (d.define name path location))
    (hpush : ∀ {d : Draft} {step : Step} path, (∀ block, step.action ≠ .use block) → P d →
      P (d.push step path))
    (path : List String) (position : Nat) (entries : List Entry) {d : Draft} (h : P d) :
    P (blocks.expand path position entries d) := by
  match entries with
  | [] => rwa [expand_nil]
  | entry :: rest =>
    rw [expand_cons]
    refine expand_induction hreport hdefine hpush path (position + 1) rest ?_
    refine expandEntry_induction hreport hdefine hpush (fun {block scenario} hout hfound => ?_) h
    exact expand_induction hreport hdefine hpush (block :: path) 0 scenario h
termination_by (blocks.closed path, entries.length)
decreasing_by
  · exact .left _ _ (closed_cons_lt hout (Table.mem_names_of_get? hfound))
  · exact .right _ (by simp)

end Blocks

namespace Draft

theorem define_steps (d : Draft) (name : String) (path : List String) (location : Location) :
    (d.define name path location).steps = d.steps := by
  unfold define
  split
  · rfl
  · dsimp only
    split <;> rfl

/-- Defining a label reports at most. -/
theorem errors_define {d : Draft} (name : String) (path : List String) (location : Location)
    (h : d.errors ≠ []) : (d.define name path location).errors ≠ [] := by
  unfold define
  split
  · simp [report, h]
  · dsimp only
    split <;> exact h

/-- Errors stay. -/
theorem errors_expand {blocks : Blocks} (path : List String) (position : Nat)
    (entries : List Entry) {d : Draft} (h : d.errors ≠ []) :
    (blocks.expand path position entries d).errors ≠ [] :=
  Blocks.expand_induction (P := fun d => d.errors ≠ [])
    (fun _ _ _ h => by simp [report, h]) (fun name path location => errors_define name path location)
    (fun _ _ h => h) path position entries h

/-- **No `use` step is left in the draft of a program.** -/
theorem useFree_expand {blocks : Blocks} (path : List String) (position : Nat)
    (entries : List Entry) {d : Draft} (h : d.UseFree) :
    (blocks.expand path position entries d).UseFree := by
  refine Blocks.expand_induction (P := UseFree) (fun _ _ _ h => h) (fun name path location h => ?_)
    (fun path huse h => ?_) path position entries h
  · intro s hs
    rw [define_steps] at hs
    exact h s hs
  · intro s hs
    rcases List.mem_append.1 hs with hs | hs
    · exact h s hs
    · obtain rfl := List.mem_singleton.1 hs
      exact huse

end Draft

end Timeline
