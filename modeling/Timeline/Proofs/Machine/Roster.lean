/-
Timeline/Proofs/Machine/Roster.lean

The roster of a configuration: who owns the registers, who queues for them, who
listens for a parked hold, and who can go on.

Every operation on configurations changes the roster and the phases of the calls
in a way that can be said in one line.  Whatever follows from the roster and the
phases alone needs no look into the operations: the `…_eq` lemmas rewrite the
configuration after an operation to an update of the one before it, and the
`phase?_…` lemmas follow the phases as a function of the numbers of the calls.
-/
import Mathlib.Data.Bool.Basic
import Mathlib.Logic.Function.Basic
import Timeline.Machine.Clock

namespace Timeline

/-- The part of a configuration that says which calls can go on and what the others wait for. -/
structure Roster where
  lock : Lock
  hold : Option Nat
  signal : Signal
  calls : Nat
  ready : List Nat
  yielded : List Nat

/-- The roster of a configuration. -/
def Config.roster (c : Config) : Roster :=
  ⟨c.lock, c.hold, c.signal, c.calls, c.ready, c.yielded⟩

/-! ### Who goes on -/

/-- Those who can go on after one of them is woken. -/
def woken (ready yielded : List Nat) (id : Nat) : List Nat :=
  if id ∈ ready ∨ id ∈ yielded then ready else ready ++ [id]

/-- Those who can go on once the first one of some others is woken. -/
def handed (others ready yielded : List Nat) : List Nat :=
  match others with
  | [] => ready
  | id :: _ => woken ready yielded id

theorem mem_woken {ready yielded : List Nat} {id j : Nat} :
    j ∈ woken ready yielded id ↔ j ∈ ready ∨ j = id ∧ id ∉ yielded := by
  unfold woken
  split
  · constructor
    · exact .inl
    · rintro (h | ⟨rfl, h⟩)
      · exact h
      · exact Or.resolve_right ‹_› h
  · rename_i h
    rw [not_or] at h
    simp [h.2]

theorem nodup_woken {ready yielded : List Nat} (h : (ready ++ yielded).Nodup) (id : Nat) :
    (woken ready yielded id ++ yielded).Nodup := by
  unfold woken
  split
  · exact h
  · rename_i hid
    rw [not_or] at hid
    rw [List.append_assoc]
    exact (List.perm_middle.nodup_iff).2 (List.nodup_cons.2 ⟨by simpa using hid, h⟩)

theorem mem_handed {others ready yielded : List Nat} {j : Nat} :
    j ∈ handed others ready yielded ↔ j ∈ ready ∨ others.head? = some j ∧ j ∉ yielded := by
  cases others with
  | nil => simp [handed]
  | cons id rest =>
    simp only [handed, mem_woken, List.head?_cons, Option.some.injEq]
    constructor
    · rintro (h | ⟨rfl, h⟩)
      · exact .inl h
      · exact .inr ⟨rfl, h⟩
    · rintro (h | ⟨rfl, h⟩)
      · exact .inl h
      · exact .inr ⟨rfl, h⟩

theorem nodup_handed {ready yielded : List Nat} (h : (ready ++ yielded).Nodup)
    (others : List Nat) : (handed others ready yielded ++ yielded).Nodup := by
  cases others with
  | nil => exact h
  | cons id _ => exact nodup_woken h id

/-- Whoever is going on stays the first one. -/
theorem head?_handed (others ready yielded : List Nat) (id : Nat) :
    (handed others (id :: ready) yielded).head? = some id := by
  cases others with
  | nil => rfl
  | cons first rest =>
    simp only [handed, woken]
    split <;> rfl

/-- The signal after a hold was parked. -/
def Signal.sent (signal : Signal) : Signal :=
  match signal.listeners with
  | [] => { signal with permit := true }
  | id :: listeners => { signal with listeners, notified := signal.notified ++ [id] }

theorem Signal.sent_listeners (signal : Signal) : signal.sent.listeners = signal.listeners.tail := by
  rcases h : signal.listeners with - | ⟨id, listeners⟩ <;> simp [sent, h]

theorem Signal.sent_notified (signal : Signal) :
    signal.sent.notified = signal.notified ++ signal.listeners.head?.toList := by
  rcases h : signal.listeners with - | ⟨id, listeners⟩ <;> simp [sent, h]

theorem Signal.sent_listeners_eq_nil {signal : Signal} (h : signal.sent.notified = []) :
    signal.sent.listeners = [] := by
  rcases hl : signal.listeners with - | ⟨id, listeners⟩
  · rw [sent_listeners, hl]
    rfl
  · simp [sent_notified, hl] at h

namespace Config

variable {c : Config} {id : Nat}

/-! ### A configuration after an operation -/

theorem wake_eq : c.wake id = { c with ready := woken c.ready c.yielded id } := by
  simp only [wake, woken, Bool.or_eq_true, decide_eq_true_eq]
  split <;> rfl

theorem unlock_eq : c.unlock
    = { c with
        lock := ⟨c.lock.queue.head?, c.lock.queue.tail⟩
        ready := handed c.lock.queue c.ready c.yielded } := by
  rcases hq : c.lock.queue with - | ⟨next, queue⟩ <;> simp only [unlock, hq, wake_eq, handed] <;>
    rfl

theorem notify_eq : c.notify
    = { c with
        signal := c.signal.sent
        ready := handed c.signal.listeners c.ready c.yielded } := by
  rcases hl : c.signal.listeners with - | ⟨first, listeners⟩ <;>
    simp only [notify, Signal.sent, hl, wake_eq, handed]

/-- The clock that moves on wakes some calls. -/
theorem tick_eq (c : Config) (time : Nat) : ∃ ready,
    c.tick time = { c with stage := { c.stage with now := time }, ready } := by
  have wakes (alarms : List (Alarm × Nat)) (c : Config) :
      ∃ ready, alarms.foldl (fun c a => c.wake a.2) c = { c with ready } := by
    induction alarms generalizing c with
    | nil => exact ⟨c.ready, rfl⟩
    | cons a rest ih =>
      obtain ⟨ready, hready⟩ := ih (c.wake a.2)
      refine ⟨ready, ?_⟩
      rw [List.foldl_cons, hready, wake_eq]
  exact wakes _ _

/-! ### The phases after an operation -/

theorem phase?_unlock : c.unlock.phase? = c.phase? := by
  rw [unlock_eq]
  rfl

theorem phase?_notify : c.notify.phase? = c.phase? := by
  rw [notify_eq]
  rfl

theorem phase?_setPhase {phase : Phase} (h : (c.phase? id).isSome) :
    (c.setPhase id phase).phase? = Function.update c.phase? id (some phase) := by
  have replace (tasks : List (Nat × Phase)) (j : Nat) :
      (tasks.map fun t => if t.1 = id then (id, phase) else t).lookup j
        = if j = id then (tasks.lookup id).map fun _ => phase else tasks.lookup j := by
    induction tasks with
    | nil => simp
    | cons t rest ih =>
      obtain ⟨n, p⟩ := t
      by_cases hn : n = id <;> by_cases hj : j = id <;> grind
  funext j
  obtain ⟨old, hold⟩ := Option.isSome_iff_exists.1 h
  rw [phase?] at hold
  by_cases hj : j = id
  · subst hj
    simp [phase?, setPhase, replace, hold]
  · simp [phase?, setPhase, replace, hj]

theorem phase?_finish {result : Except StepError Unit} :
    (c.finish id result).phase? = Function.update c.phase? id none := by
  have remove (tasks : List (Nat × Phase)) (j : Nat) :
      (tasks.filter fun t => t.1 ≠ id).lookup j = if j = id then none else tasks.lookup j := by
    induction tasks with
    | nil => simp
    | cons t rest ih =>
      obtain ⟨n, p⟩ := t
      by_cases hn : n = id <;> by_cases hj : j = id <;> grind
  funext j
  rw [Function.update_apply]
  exact remove c.tasks j

theorem phase?_issue {call : Call} (h : c.phase? c.calls = none) :
    (c.issue call).phase? = Function.update c.phase? c.calls (some (.issued call)) := by
  funext j
  rw [phase?] at h
  by_cases hj : j = c.calls
  · subst hj
    simp [phase?, issue, List.lookup_append, h]
  · have hne : (j == c.calls) = false := beq_false_of_ne hj
    simp [phase?, issue, List.lookup_append, List.lookup_cons, hj, hne]

end Config

end Timeline
