/-
Timeline/Stage/Join.lean

Joins: members that are under way together.  A join is over when all its members
have come to a result, or when it fails.

A small join visits all its members in order whenever one of them can go on, and
the first failure that it meets ends it.  A large join visits only the members
that can go on, in the order in which they were woken, and it looks at the results
in the order of its members: a failure ends it as soon as all members before have
come to a result.
-/
import Timeline.Stage.Work

namespace Timeline

/-- Members that are under way together, or that are over with a result. -/
abbrev Join (σ ρ : Type) := List (Progress σ (Except StepError ρ))

namespace Join

variable {σ ρ : Type}

/-- The greatest number of members of a small join. -/
def smallSize : Nat := 30

/-- Whether a join is a large one. -/
def isLarge (j : Join σ ρ) : Bool :=
  smallSize < j.length

/-- The failure that ends a join. -/
def failure? (large : Bool) : Join σ ρ → Option StepError
  | [] => none
  | .finished (.error e) :: _ => some e
  | .finished (.ok _) :: rest => failure? large rest
  | .busy _ :: rest => if large then none else failure? large rest

/-- The results, once all members have come to one. -/
def results? : Join σ ρ → Option (List ρ)
  | [] => some []
  | .finished (.ok r) :: rest => (results? rest).map (r :: ·)
  | _ :: _ => none

/-- A join has results when all its members have ended well. -/
theorem results?_eq_some_iff {j : Join σ ρ} {rs : List ρ} :
    results? j = some rs ↔ j = rs.map fun r => .finished (.ok r) := by
  induction j generalizing rs with
  | nil => cases rs <;> simp [results?]
  | cons p rest ih =>
    rcases p with state | e | r
    · cases rs <;> simp [results?]
    · cases rs <;> simp [results?]
    · cases rs with
      | nil => simp [results?]
      | cons r' rs =>
        simp only [results?, Option.map_eq_some_iff, ih, List.map_cons, List.cons.injEq]
        constructor
        · rintro ⟨rs, hrest, rfl, rfl⟩
          exact ⟨rfl, hrest⟩
        · rintro ⟨h, hrest⟩
          cases h
          exact ⟨rs, hrest, rfl, rfl⟩

/-- The alarms that members wait for. -/
def alarms (alarm? : σ → Option Alarm) (j : Join σ ρ) : List Alarm :=
  j.filterMap fun
    | .busy state => alarm? state
    | .finished _ => none

/-- The numbers of the members that can go on: those that have not begun, and then those whose
alarms have gone off or are still to be set, by the tickets of the alarms. -/
def woken (alarm? : σ → Option Alarm) (now : Nat) (j : Join σ ρ) : List Nat :=
  let able := j.zipIdx.filterMap fun
    | (.busy state, i) =>
      match alarm? state with
      | none => some (none, i)
      | some a => if a.due ≤ now || !a.isSet then some (some a.ticket, i) else none
    | (.finished _, _) => none
  (able.mergeSort fun a b => a.1.all fun x => b.1.any fun y => x ≤ y).map Prod.snd

/-- Visit the members with some numbers, one after the other, unless the join has failed. -/
def visit (poll : σ → Stage → Stage × Progress σ (Except StepError ρ)) (large : Bool) :
    List Nat → Join σ ρ → Stage → Stage × Join σ ρ
  | [], j, s => (s, j)
  | i :: rest, j, s =>
    match j[i]? with
    | some (.busy state) =>
      match poll state s with
      | (s, .busy state) => visit poll large rest (j.set i (.busy state)) s
      | (s, .finished result) =>
        let j := j.set i (.finished result)
        if (failure? large j).isSome then (s, j) else visit poll large rest j s
    | _ => visit poll large rest j s

/-- A visit keeps the number of the members, so that a small join stays a small one. -/
theorem length_visit {poll : σ → Stage → Stage × Progress σ (Except StepError ρ)} {large : Bool}
    (order : List Nat) (j : Join σ ρ) (s : Stage) :
    (visit poll large order j s).2.length = j.length := by
  induction order generalizing j s with
  | nil => rfl
  | cons i rest ih =>
    rcases e : j[i]? with - | (state | result) <;> simp only [visit, e]
    · exact ih j s
    · rcases poll state s with ⟨s', state' | result⟩
      · exact (ih ..).trans (by simp)
      · dsimp only
        split
        · simp
        · exact (ih ..).trans (by simp)
    · exact ih j s

/-- Visit the members that are to be visited. -/
def poll (pollOne : σ → Stage → Stage × Progress σ (Except StepError ρ))
    (alarm? : σ → Option Alarm) (j : Join σ ρ) (s : Stage) :
    Stage × Progress (Join σ ρ) (Except StepError (List ρ)) :=
  let large := j.isLarge
  let order := if large then j.woken alarm? s.now else List.range j.length
  let (s, j) := visit pollOne large order j s
  match failure? large j, results? j with
  | some e, _ => (s, .finished (.error e))
  | none, some results => (s, .finished (.ok results))
  | none, none => (s, .busy j)

end Join

end Timeline
