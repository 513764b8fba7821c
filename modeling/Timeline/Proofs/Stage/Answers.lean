/-
Timeline/Proofs/Stage/Answers.lean

Operands that answer at once.

Whoever neither waits nor writes sees of a stage no more than the values of the targets
and what the functions do (`Stage.sight`).  `Work.Quick` is work that only looks and calls
functions that do so too, each of them the same at every call.  It comes to the same
result on all stages that look alike, and leaves them looking alike
(`Work.Quick.perform`).

Main result (`Activity.poll_tweens`): tweens whose operands answer at once are all
resolved as if each of them were alone on the stage, and their animations begin
together.
-/
import Timeline.Proofs.Stage.Dealings
import Timeline.Proofs.Stage.Frames

namespace Timeline

open Stage

/-! ### What can be seen of a stage -/

/-- What those see of a stage who neither wait nor write. -/
structure Sight where
  values : String → Option Float
  handler? : String → Option Handler

/-- The values of the targets, and what the functions do. -/
def Stage.sight (s : Stage) : Sight where
  values := s.driver.get?
  handler? name := (s.functions.functions.get? name).map Registered.handler

/-- A stage on which nothing has happened but calls of functions. -/
structure Stage.Consults (s s' : Stage) : Prop where
  now : s'.now = s.now
  driver : s'.driver = s.driver
  sight : s'.sight = s.sight
  writes : ∀ target, s'.writes target = s.writes target

/-- Stages of one moment on which the targets have the same values and the functions do the same. -/
structure Stage.Alike (s s' : Stage) : Prop where
  now : s'.now = s.now
  frame : s'.driver.frame = s.driver.frame
  sight : s'.sight = s.sight

namespace Stage.Consults

variable {s s' s'' : Stage}

theorem refl (s : Stage) : s.Consults s :=
  ⟨rfl, rfl, rfl, fun _ => rfl⟩

theorem trans (h : s.Consults s') (h' : s'.Consults s'') : s.Consults s'' where
  now := h'.now.trans h.now
  driver := h'.driver.trans h.driver
  sight := h'.sight.trans h.sight
  writes target := (h'.writes target).trans (h.writes target)

/-- To look for a function in vain changes nothing. -/
theorem missed (s : Stage) (name : String) : s.Consults (s.note (.missed name)) :=
  ⟨rfl, rfl, rfl, fun _ => rfl⟩

/-- To call a function leaves what the functions do. -/
theorem called {name : String} {arg : Option Json} {body : Routine}
    (h : s.call? name arg = some (body, s')) : s.Consults s' := by
  obtain ⟨r, hr, rfl⟩ := Stage.call?_eq_some h
  obtain ⟨f, hf, he⟩ := Option.map_eq_some_iff.1 hr
  obtain ⟨-, rfl⟩ := Prod.mk.inj he
  refine ⟨rfl, rfl, ?_, fun _ => rfl⟩
  show (⟨s.driver.get?, _⟩ : Sight) = ⟨s.driver.get?, _⟩
  congr 1
  funext other
  by_cases ho : other = name
  · simp [Stage.note, ho, hf]
  · simp [Stage.note, ho]

end Stage.Consults

/-! ### Work that answers at once -/

/-- Every call of a function does the same, and neither waits nor writes. -/
def Handler.Plain (h : Handler) (arg : Option Json) : Prop :=
  ∃ body : Routine, body.Prompt ∧ ∀ n, h n arg = body

/-- A prompt routine has one result on all stages with the same values, and leaves them alone. -/
theorem Routine.Prompt.run {r : Routine} (h : r.Prompt) (values : String → Option Float) :
    ∃ result, ∀ s : Stage, s.driver.get? = values → r.run s = (s, .finished result) := by
  induction h with
  | done result => exact ⟨result, fun _ _ => rfl⟩
  | read target rest _ ih =>
    obtain ⟨result, hresult⟩ := ih (values target)
    refine ⟨result, fun s hs => ?_⟩
    rw [Routine.run, hs]
    exact hresult s hs

namespace Work

variable {α β : Type} {v : Sight}

/-- Work that neither waits nor writes, whatever it sees, and calls plain functions only. -/
def Quick (v : Sight) : Work α → Prop
  | done _ => True
  | fail _ => True
  | sleep _ _ => False
  | look _ rest => ∀ x, (rest x).Quick v
  | set _ _ _ => False
  | vibrate _ => False
  | call name arg rest => (∀ h, v.handler? name = some h → h.Plain arg) ∧ ∀ x, (rest x).Quick v
  | run body rest => body.Prompt ∧ ∀ x, (rest x).Quick v

theorem Quick.bind {w : Work α} {f : α → Work β} (hw : w.Quick v) (hf : ∀ r, (f r).Quick v) :
    (w.bind f).Quick v := by
  induction w with
  | done r => exact hf r
  | fail _ => trivial
  | sleep _ _ _ => exact hw.elim
  | look _ _ ih => exact fun x => ih x (hw x)
  | set _ _ _ _ => exact hw.elim
  | vibrate _ _ => exact hw.elim
  | call _ _ _ ih => exact ⟨hw.1, fun x => ih x (hw.2 x)⟩
  | run _ _ ih => exact ⟨hw.1, fun x => ih x (hw.2 x)⟩

/-- What follows a prompt routine. -/
theorem perform_run_quick {body : Routine} (hbody : body.Prompt) {rest : Json → Work α}
    (ih : ∀ x, ∃ result, ∀ s : Stage, s.sight = v →
      ((rest x).perform s).2 = .finished result ∧ s.Consults ((rest x).perform s).1) :
    ∃ result, ∀ s : Stage, s.sight = v →
      ((Work.run body rest).perform s).2 = .finished result ∧
        s.Consults ((Work.run body rest).perform s).1 := by
  obtain ⟨answer, hanswer⟩ := hbody.run v.values
  rcases answer with e | x
  · refine ⟨.error (.call e), fun s hs => ?_⟩
    simp only [perform, hanswer s (congrArg Sight.values hs)]
    exact ⟨trivial, .refl s⟩
  · obtain ⟨result, hresult⟩ := ih x
    refine ⟨result, fun s hs => ?_⟩
    simp only [perform, hanswer s (congrArg Sight.values hs)]
    exact hresult s hs

/-- **Quick work has one result on all stages that look alike.** -/
theorem Quick.perform {w : Work α} (h : w.Quick v) :
    ∃ result, ∀ s : Stage, s.sight = v →
      (w.perform s).2 = .finished result ∧ s.Consults (w.perform s).1 := by
  induction w with
  | done r => exact ⟨.ok r, fun s _ => ⟨rfl, .refl s⟩⟩
  | fail e => exact ⟨.error e, fun s _ => ⟨rfl, .refl s⟩⟩
  | sleep _ _ _ => exact h.elim
  | set _ _ _ _ => exact h.elim
  | vibrate _ _ => exact h.elim
  | look target rest ih =>
    obtain ⟨result, hresult⟩ := ih (v.values target) (h _)
    refine ⟨result, fun s hs => ?_⟩
    have hvalue : s.driver.get? target = v.values target :=
      congrFun (congrArg Sight.values hs) target
    rw [Work.perform, hvalue]
    exact hresult s hs
  | run body rest ih => exact perform_run_quick h.1 fun x => ih x (h.2 x)
  | call name arg rest ih =>
    rcases hhandler : v.handler? name with - | handler
    · -- nobody knows the function
      refine ⟨.error (.call (.notFound name)), fun s hs => ?_⟩
      have hnone : s.call? name arg = none := by
        have hname := (congrFun (congrArg Sight.handler? hs) name).trans hhandler
        simp [Stage.call?, Registry.call?, Option.map_eq_none_iff.1 hname]
      simp only [Work.perform, hnone]
      exact ⟨trivial, .missed s name⟩
    · obtain ⟨body, hbody, hall⟩ := h.1 handler hhandler
      obtain ⟨result, hresult⟩ := perform_run_quick hbody fun x => ih x (h.2 x)
      refine ⟨result, fun s hs => ?_⟩
      obtain ⟨f, hf, rfl⟩ := Option.map_eq_some_iff.1
        ((congrFun (congrArg Sight.handler? hs) name).trans hhandler)
      obtain ⟨s', hs'⟩ : ∃ s', s.call? name arg = some (body, s') := by
        simp [Stage.call?, Registry.call?, hf, hall]
      have hcalled := Stage.Consults.called hs'
      obtain ⟨hfinished, hconsults⟩ := hresult s' (hcalled.sight.trans hs)
      rw [perform_call hs']
      exact ⟨hfinished, hcalled.trans hconsults⟩

end Work

/-! ### Tweens -/

/-- An operand that answers at once, always in the same way. -/
def Operand.Quick (v : Sight) : Operand → Prop
  | literal _ => True
  | named name => ∀ h, v.handler? name = some h → h.Plain none
  | function body => body.Prompt

namespace Operand

variable {o : Operand} {v : Sight}

theorem Quick.resolve (h : o.Quick v) : o.resolve.Quick v := by
  cases o with
  | literal _ => trivial
  | named _ => exact ⟨h, fun _ => trivial⟩
  | function _ => exact ⟨h, fun _ => trivial⟩

theorem Quick.number (h : o.Quick v) (field : String) : (o.number field).Quick v := by
  refine h.resolve.bind fun x => ?_
  split
  · trivial
  · trivial

theorem Quick.duration (h : o.Quick v) : o.duration.Quick v := by
  refine h.resolve.bind fun x => ?_
  split
  · trivial
  · trivial

end Operand

namespace Tween

variable {t : Tween} {s : Stage} {m : Motion Float}

/-- A tween whose operands answer at once. -/
def Quick (v : Sight) (t : Tween) : Prop :=
  t.destination.operand.Quick v ∧ t.duration.Quick v

theorem Quick.prepare {v : Sight} (h : t.Quick v) : t.prepare.Quick v := by
  have hnumber : (t.destination.number t.target).Quick v := by
    refine (h.1.number "to").bind fun amount => ?_
    cases t.destination with
    | absolute _ => trivial
    | _ =>
      intro x
      dsimp only
      split
      · trivial
      · trivial
  exact hnumber.bind fun _ => h.2.duration.bind fun _ => trivial

/-- The animation that a tween comes to on a stage, if it is resolved at once. -/
def animation? (s : Stage) (t : Tween) : Option (Animation Float) :=
  match (t.prepare.perform s).2 with
  | .finished (.ok (_, animation)) => some animation
  | _ => none

/-- The motion with which a tween begins on a stage, if it is resolved at once. -/
def motion? (s : Stage) (t : Tween) : Option (Motion Float) :=
  (t.animation? s).bind fun animation =>
    (s.driver.launch? t.target animation s.now).map Prod.fst

/-- A tween comes to an animation of its own target. -/
theorem target_of_prepare {p : String × Animation Float}
    (h : (t.prepare.perform s).2 = .finished (.ok p)) : p.1 = t.target := by
  have hmeets : t.prepare.Meets .free fun p => p.1 = t.target :=
    (Work.meets_free _).bind fun _ _ => (Work.meets_free _).bind fun _ _ => rfl
  have hresult := (Work.perform_meets hmeets (Bounds.free_covers s)).2
  rw [h] at hresult
  exact hresult

theorem prepare_of_animation? {animation : Animation Float} (h : t.animation? s = some animation) :
    (t.prepare.perform s).2 = .finished (.ok (t.target, animation)) := by
  unfold animation? at h
  split at h
  · rename_i target a hp
    obtain rfl := Option.some.inj h
    obtain rfl : target = t.target := target_of_prepare hp
    exact hp
  · cases h

theorem of_motion? (h : t.motion? s = some m) :
    t.animation? s = some m.animation ∧ m.target = t.target ∧ m.StartsOn s := by
  obtain ⟨animation, hanimation, hm⟩ := Option.bind_eq_some_iff.1 h
  obtain ⟨⟨m', d⟩, hlaunch, rfl⟩ := Option.map_eq_some_iff.1 hm
  obtain ⟨slot, hclaim, rfl⟩ := Driver.launch?_eq_some hlaunch
  obtain ⟨old, hold, rfl, -⟩ := Driver.claim?_eq_some hclaim
  exact ⟨hanimation, rfl, ⟨⟨old, hold, rfl, rfl⟩, rfl⟩⟩

/-- What a tween comes to that is resolved on stages that look alike. -/
theorem Quick.alike (h : t.Quick s.sight) {s' : Stage} {m' : Motion Float} (hs : s.Alike s')
    (hm : t.motion? s = some m) (hm' : t.motion? s' = some m') : m.Alike m' := by
  obtain ⟨hanimation, htarget, hstarts⟩ := of_motion? hm
  obtain ⟨hanimation', htarget', hstarts'⟩ := of_motion? hm'
  obtain ⟨result, hresult⟩ := h.prepare.perform
  refine ⟨?_, ?_, by rw [hstarts'.start, hstarts.start, hs.now]⟩
  · have hone := (hresult s rfl).1.symm.trans (prepare_of_animation? hanimation)
    have hother := (hresult s' hs.sight).1.symm.trans (prepare_of_animation? hanimation')
    have hsame := hother.symm.trans hone
    injection hsame with hsame
    injection hsame with hsame
    exact (Prod.mk.inj hsame).2
  · obtain ⟨slot, hslot, horigin, -⟩ := hstarts.slot
    obtain ⟨slot', hslot', horigin', -⟩ := hstarts'.slot
    have hvalue : s'.driver.get? t.target = s.driver.get? t.target :=
      congrFun (congrArg Sight.values hs.sight) t.target
    rw [Driver.get?, Driver.get?, ← htarget', hslot', htarget', ← htarget, hslot] at hvalue
    rw [horigin', horigin]
    exact Option.some.inj hvalue

end Tween

/-! ### Tweens that are resolved together -/

namespace Join

variable {σ ρ : Type} {pollOne : σ → Stage → Stage × Progress σ (Except StepError ρ)}
  {I : Stage → Prop} {E : Nat → Progress σ (Except StepError ρ) → Prop} {K : Stage → Stage → Prop}
  {j : Join σ ρ} {s : Stage}

/-- The results of a join tell what is known of its members. -/
theorem Minds.results (h : Minds pollOne I E K) (alarm? : σ → Option Alarm) (hj : j.Each E)
    (hs : I s) {s' : Stage} {rs : List ρ}
    (hpoll : Join.poll pollOne alarm? j s = (s', .finished (.ok rs))) :
    rs.length = j.length ∧ ∀ (i : Nat) r, rs[i]? = some r → E i (.finished (.ok r)) := by
  obtain ⟨-, hall⟩ := h.visits j.isLarge
    (if j.isLarge then j.woken alarm? s.now else List.range j.length) hj hs
  have hlength : (visit pollOne j.isLarge
      (if j.isLarge then j.woken alarm? s.now else List.range j.length) j s).2.length = j.length :=
    length_visit ..
  simp only [Join.poll] at hpoll
  generalize visit pollOne j.isLarge _ j s = result at hall hlength hpoll
  obtain ⟨s₁, j'⟩ := result
  dsimp only at hall hlength hpoll
  rcases hfailure : failure? j.isLarge j' with - | e <;>
    rcases hresults : results? j' with - | rs' <;> simp only [hfailure, hresults] at hpoll
  · cases hpoll
  · cases hpoll
    obtain rfl := results?_eq_some_iff.1 hresults
    refine ⟨?_, fun i r hr => hall i _ (by rw [List.getElem?_map, hr]; rfl)⟩
    rw [← hlength, List.length_map]
  · cases hpoll
  · cases hpoll

end Join

namespace Tween

variable {ts : List Tween} {ms : List (Motion Float)} {s : Stage}

/-- The motions with which some tweens begin. -/
theorem exists_motions (h : ∀ t ∈ ts, (t.motion? s).isSome) :
    ∃ ms : List (Motion Float), ts.map (Tween.motion? s) = ms.map some := by
  induction ts with
  | nil => exact ⟨[], rfl⟩
  | cons t rest ih =>
    obtain ⟨m, hm⟩ := Option.isSome_iff_exists.1 (h t List.mem_cons_self)
    obtain ⟨ms, hms⟩ := ih fun t ht => h t (List.mem_cons_of_mem _ ht)
    exact ⟨m :: ms, by rw [List.map_cons, List.map_cons, hm, hms]⟩

/-- The operands of some tweens, before any of them is resolved. -/
def members (ts : List Tween) : Join (Course (String × Animation Float))
    (String × Animation Float) :=
  ts.map fun t => .busy (.ahead t.prepare)

/-- A member of a join of tweens has not begun, or has come to what its tween comes to alone. -/
def Prepares (ts : List Tween) (ms : List (Motion Float)) (i : Nat)
    (p : Progress (Course (String × Animation Float))
      (Except StepError (String × Animation Float))) : Prop :=
  ∃ t m, ts[i]? = some t ∧ ms[i]? = some m ∧
    (p = .busy (.ahead t.prepare) ∨ p = .finished (.ok (m.target, m.animation)))

section Motions

variable (hmotions : ts.map (Tween.motion? s) = ms.map some)

include hmotions

theorem length_motions : ts.length = ms.length := by
  have h := congrArg List.length hmotions
  rwa [List.length_map, List.length_map] at h

theorem mem_motions {t : Tween} (ht : t ∈ ts) : ∃ m ∈ ms, t.motion? s = some m := by
  have hmem : t.motion? s ∈ ms.map some := hmotions ▸ List.mem_map_of_mem ht
  obtain ⟨m, hm, heq⟩ := List.mem_map.1 hmem
  exact ⟨m, hm, heq.symm⟩

theorem of_mem_motions {m : Motion Float} (hm : m ∈ ms) : ∃ t ∈ ts, t.motion? s = some m := by
  have hmem : some m ∈ ts.map (Tween.motion? s) := hmotions ▸ List.mem_map_of_mem hm
  exact List.mem_map.1 hmem

theorem targets_motions : ms.map Motion.target = ts.map Tween.target := by
  induction ts generalizing ms with
  | nil =>
    obtain rfl : ms = [] := List.map_eq_nil_iff.1 hmotions.symm
    rfl
  | cons t rest ih =>
    rcases ms with - | ⟨m, ms⟩
    · cases hmotions
    · obtain ⟨hm, hrest⟩ := List.cons.inj hmotions
      rw [List.map_cons, List.map_cons, ih hrest, (of_motion? hm).2.1]

theorem prepares_members : (members ts).Each (Prepares ts ms) := by
  intro i p hp
  rw [members, List.getElem?_map] at hp
  obtain ⟨t, ht, rfl⟩ := Option.map_eq_some_iff.1 hp
  have hlt : i < ms.length := length_motions hmotions ▸ (List.getElem?_eq_some_iff.1 ht).1
  exact ⟨t, ms[i], ht, List.getElem?_eq_getElem hlt, .inl rfl⟩

/-- Tweens do not mind each other while they are resolved: none of them changes what another one
sees. -/
theorem minds_members (hquick : ∀ t ∈ ts, t.Quick s.sight) :
    Join.Minds Course.poll (fun s' => s'.sight = s.sight) (Prepares ts ms) Stage.Consults where
  refl := .refl
  trans := .trans
  mono h hs := h.sight.trans hs
  one := by
    rintro s' i state hs' ⟨t, m, ht, hm, hstate | hstate⟩
    · obtain rfl : state = .ahead t.prepare := Progress.busy.inj hstate
      have hmotion : t.motion? s = some m := by
        have h := congrArg (·[i]?) hmotions
        simpa [ht, hm] using h
      obtain ⟨hanimation, htarget, -⟩ := Tween.of_motion? hmotion
      obtain ⟨result, hresult⟩ := (hquick t (List.mem_of_getElem? ht)).prepare.perform
      have hhere := (hresult s rfl).1.symm.trans (Tween.prepare_of_animation? hanimation)
      obtain ⟨hfinished, hconsults⟩ := hresult s' hs'
      refine ⟨hconsults, t, m, ht, hm, .inr ?_⟩
      rw [htarget, ← hhere]
      exact hfinished
    · cases hstate

/-- The results of tweens that do not mind each other. -/
theorem results_eq {results : List (String × Animation Float)} (hlength : results.length = ts.length)
    (hresults : ∀ (i : Nat) r, results[i]? = some r → Prepares ts ms i (.finished (.ok r))) :
    results = ms.map fun m => (m.target, m.animation) := by
  refine List.ext_getElem? fun i => ?_
  rw [List.getElem?_map]
  rcases hr : results[i]? with - | r
  · have hge := List.getElem?_eq_none_iff.1 hr
    rw [hlength, length_motions hmotions] at hge
    rw [List.getElem?_eq_none hge]
    rfl
  · obtain ⟨t, m, -, hm, he | he⟩ := hresults i r hr
    · cases he
    · rw [hm, Option.map_some]
      cases he
      rfl

end Motions

/-- Whoever has not come to a result would wait for an alarm, which tweens that do not mind each other
never do. -/
theorem alarms_of_prepares {j : Join (Course (String × Animation Float)) (String × Animation Float)}
    (h : j.Each (Prepares ts ms)) : Join.alarms Course.alarm? j = [] := by
  refine List.filterMap_eq_nil_iff.2 fun p hp => ?_
  obtain ⟨i, hi⟩ := List.mem_iff_getElem?.1 hp
  obtain ⟨t, m, -, -, rfl | rfl⟩ := h i p hi
  · rfl
  · rfl

end Tween

/-- **Tweens are resolved as if each of them were alone**, and their animations begin together. -/
theorem Activity.poll_tweens {ts : List Tween} {ms : List (Motion Float)} {s : Stage}
    (hquick : ∀ t ∈ ts, t.Quick s.sight) (hmotions : ts.map (Tween.motion? s) = ms.map some) :
    ∃ s₁, s.Consults s₁ ∧ (Activity.tweens ts).poll s
      = pollConvoy (.ofBatch (ms.map fun m => (m.target, m.animation))) s₁ := by
  have hminds := Tween.minds_members hmotions hquick
  have hstart := Tween.prepares_members hmotions
  obtain ⟨hconsults, hcomes⟩ := hminds.poll Course.alarm? hstart rfl
  have hmeets := (Join.poll_meets (B := .free) (R := fun _ => True) (j := Tween.members ts) (s := s)
    (Course.poll_visits (Q := fun _ => True))
    (fun p hp => by
      obtain ⟨t, -, rfl⟩ := List.mem_map.1 hp
      exact t.prepare.meets_free) (Bounds.free_covers s)).2
  rcases hp : Join.poll Course.poll Course.alarm? (Tween.members ts) s with ⟨s₁, j' | e | rs⟩ <;>
    rw [hp] at hconsults hcomes hmeets
  · exact absurd (Tween.alarms_of_prepares hcomes.2) hmeets.2
  · obtain ⟨i, t, m, -, -, he | he⟩ := hcomes
    · cases he
    · cases he
  · obtain ⟨hlength, hresults⟩ := hminds.results Course.alarm? hstart rfl hp
    rw [Tween.members, List.length_map] at hlength
    refine ⟨s₁, hconsults, ?_⟩
    rw [Activity.tweens, ← Tween.members, Activity.poll, hp,
      Tween.results_eq hmotions hlength hresults]

end Timeline
