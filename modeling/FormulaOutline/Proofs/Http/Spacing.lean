import FormulaOutline.Http.Client
import Mathlib.Order.Nat

/-!
# Requests side by side

Calls of one client can run side by side, as many as it has permits. Each of them looks at the time of
the last request, sleeps as long as is missing to the interval, and only then notes its own time and
sends. While it sleeps, another call can look at the same time and go out together with it.

* `Calls`: calls side by side, with the moves that they make and the times of their requests.
* `run_keepPace`: a call that nothing comes between is held back as in a `Line`.
* `Noted`: what holds however the calls run, and `Noted.exists_together` that a call can go out
  together with one that is held back.
* `Paced`: what holds as long as no call enters while another one is held back.
* `spacing`: which runs keep the distance.
-/

namespace FormulaOutline.Http

/-! ## Calls and their moves -/

inductive Stage
  /-- Without a permit. -/
  | waiting
  /-- Asleep until a deadline at least. -/
  | held (deadline : Nat)
  /-- The request has been sent. -/
  | asking
  /-- The permit has been given back. -/
  | finished
deriving DecidableEq

namespace Stage

/-- The call has a permit. -/
def runs : Stage → Bool
  | held _ => true
  | asking => true
  | _ => false

def isHeld : Stage → Bool
  | held _ => true
  | _ => false

end Stage

structure Calls where
  now : Nat
  pacing : Pacing
  /-- How many calls may have a permit. -/
  permits : Nat
  stages : List Stage
  /-- The times of the requests, the first one first. -/
  sent : List Nat
deriving DecidableEq

/-- What happens next: time passes, or a call gets a permit, wakes up or is answered. -/
inductive Move
  | pass (ms : Nat)
  | enter (call : Nat)
  | release (call : Nat)
  | answer (call : Nat)
deriving DecidableEq

/-- A call gets a permit. -/
def Move.enters : Move → Bool
  | enter _ => true
  | _ => false

namespace Calls

/-- Calls of a client with a number of requests a minute, none of which has a permit yet. -/
def start (requests calls : Nat) : Calls :=
  ⟨0, .perMinute requests, max requests 1, List.replicate calls .waiting, []⟩

def free (c : Calls) : Nat := c.permits - c.stages.countP Stage.runs

def pass (c : Calls) (ms : Nat) : Calls := { c with now := c.now + ms }

def put (c : Calls) (i : Nat) (s : Stage) : Calls := { c with stages := c.stages.set i s }

/-- Notes the time and sends the request of a call. -/
def send (c : Calls) (i : Nat) : Calls :=
  { c.put i .asking with pacing := c.pacing.sent c.now, sent := c.sent ++ [c.now] }

/-- A call with a permit looks at the last request, and is held back if that was not long ago. -/
def enter (c : Calls) (i : Nat) : Calls :=
  if c.pacing.wait c.now = 0 then c.send i else c.put i (.held (c.now + c.pacing.wait c.now))

/-- A move, if it can be made. -/
def step? (c : Calls) : Move → Option Calls
  | .pass ms => some (c.pass ms)
  | .enter i => if c.stages[i]? = some .waiting ∧ 0 < c.free then some (c.enter i) else none
  | .release i =>
      match c.stages[i]? with
      | some (.held deadline) => if deadline ≤ c.now then some (c.send i) else none
      | _ => none
  | .answer i => if c.stages[i]? = some .asking then some (c.put i .finished) else none

/-- Moves one after another, if all of them can be made. -/
def run? (c : Calls) : List Move → Option Calls
  | [] => some c
  | m :: moves => (c.step? m).bind fun c' => c'.run? moves

/-- The requests are an interval apart, each one from all that are sent later. -/
def Spaced (c : Calls) : Prop := c.sent.Pairwise fun t u => t + c.pacing.interval ≤ u

variable {c c' : Calls} {m : Move} {moves more : List Move} {i j deadline : Nat} {s : Stage}

theorem run?_append : c.run? (moves ++ more) = (c.run? moves).bind fun c' => c'.run? more := by
  induction moves generalizing c with
  | nil => rfl
  | cons m moves ih =>
    rw [List.cons_append, run?, run?, Option.bind_assoc]
    exact congrArg _ (funext fun _ => ih)

theorem stages_put (h : c.stages[i]? = some s) (s' : Stage) (j : Nat) :
    (c.put i s').stages[j]? = if i = j then some s' else c.stages[j]? := by
  obtain ⟨hBound, -⟩ := List.getElem?_eq_some_iff.mp h
  rw [put, List.getElem?_set, if_pos hBound]

theorem ne_of_stages {s' : Stage} (h : c.stages[i]? = some s) (h' : c.stages[j]? = some s')
    (hOther : s ≠ s') : i ≠ j := by
  rintro rfl
  exact hOther (Option.some.inj (h.symm.trans h'))

/-- A call that is held back is another one than the call that has just moved on. -/
theorem held_of_put {s' : Stage} (h : c.stages[i]? = some s) (hMoved : s'.isHeld = false)
    (hHeld : (c.put i s').stages[j]? = some (.held deadline)) :
    i ≠ j ∧ c.stages[j]? = some (.held deadline) := by
  rw [stages_put h] at hHeld
  split at hHeld
  · cases hHeld
    cases hMoved
  · exact ⟨‹_›, hHeld⟩

/-! ## Steps -/

/-- What a move does. -/
inductive Steps (c : Calls) : Move → Calls → Prop
  | pass (ms : Nat) : Steps c (.pass ms) (c.pass ms)
  | send {i : Nat} (hStage : c.stages[i]? = some .waiting) (hFree : 0 < c.free)
      (hReady : c.pacing.wait c.now = 0) : Steps c (.enter i) (c.send i)
  | hold {i : Nat} (hStage : c.stages[i]? = some .waiting) (hFree : 0 < c.free)
      (hEarly : 0 < c.pacing.wait c.now) :
      Steps c (.enter i) (c.put i (.held (c.now + c.pacing.wait c.now)))
  | release {i deadline : Nat} (hStage : c.stages[i]? = some (.held deadline))
      (hPast : deadline ≤ c.now) : Steps c (.release i) (c.send i)
  | answer {i : Nat} (hStage : c.stages[i]? = some .asking) : Steps c (.answer i) (c.put i .finished)

theorem steps_of_step? (h : c.step? m = some c') : Steps c m c' := by
  cases m with
  | pass ms =>
    obtain rfl := Option.some.inj h
    exact .pass ms
  | enter i =>
    obtain ⟨⟨hStage, hFree⟩, hEnter⟩ := Option.ite_none_right_eq_some.mp h
    obtain rfl := Option.some.inj hEnter
    rw [enter]
    split
    · rename_i hReady
      exact .send hStage hFree hReady
    · rename_i hEarly
      exact .hold hStage hFree (Nat.pos_of_ne_zero hEarly)
  | release i =>
    rw [step?] at h
    split at h
    · rename_i deadline hStage
      obtain ⟨hPast, hSend⟩ := Option.ite_none_right_eq_some.mp h
      obtain rfl := Option.some.inj hSend
      exact .release hStage hPast
    · cases h
  | answer i =>
    obtain ⟨hStage, hAnswer⟩ := Option.ite_none_right_eq_some.mp h
    obtain rfl := Option.some.inj hAnswer
    exact .answer hStage

theorem step?_send (hStage : c.stages[i]? = some .waiting) (hFree : 0 < c.free)
    (hReady : c.pacing.wait c.now = 0) : c.step? (.enter i) = some (c.send i) := by
  rw [step?, if_pos ⟨hStage, hFree⟩, enter, if_pos hReady]

theorem step?_hold (hStage : c.stages[i]? = some .waiting) (hFree : 0 < c.free)
    (hEarly : c.pacing.wait c.now ≠ 0) :
    c.step? (.enter i) = some (c.put i (.held (c.now + c.pacing.wait c.now))) := by
  rw [step?, if_pos ⟨hStage, hFree⟩, enter, if_neg hEarly]

theorem step?_release (hStage : c.stages[i]? = some (.held deadline)) (hPast : deadline ≤ c.now) :
    c.step? (.release i) = some (c.send i) := by
  rw [step?, hStage]
  exact if_pos hPast

theorem step?_answer (hStage : c.stages[i]? = some .asking) :
    c.step? (.answer i) = some (c.put i .finished) :=
  if_pos hStage

/-- What every move preserves holds after a run. -/
theorem run_induction {P : Calls → Prop} (hStep : ∀ {c c' m}, P c → Steps c m c' → P c')
    (hRun : c.run? moves = some c') (h : P c) : P c' := by
  induction moves generalizing c with
  | nil => exact Option.some.inj hRun ▸ h
  | cons m moves ih =>
    obtain ⟨_, hFirst, hRest⟩ := Option.bind_eq_some_iff.mp hRun
    exact ih hRest (hStep h (steps_of_step? hFirst))

/-- Neither the interval nor the number of permits or of calls changes. -/
structure SameBounds (c c' : Calls) : Prop where
  interval : c'.pacing.interval = c.pacing.interval
  permits : c'.permits = c.permits
  calls : c'.stages.length = c.stages.length

theorem Steps.sameBounds (h : Steps c m c') : SameBounds c c' := by
  cases h with
  | pass => exact ⟨rfl, rfl, rfl⟩
  | hold | send | release | answer => exact ⟨rfl, rfl, List.length_set⟩

theorem sameBounds_of_run (hRun : c.run? moves = some c') : SameBounds c c' :=
  run_induction (P := fun c' => SameBounds c c')
    (fun h hStep => ⟨hStep.sameBounds.interval.trans h.interval,
      hStep.sameBounds.permits.trans h.permits, hStep.sameBounds.calls.trans h.calls⟩)
    hRun ⟨rfl, rfl, rfl⟩

/-- A call that nothing comes between is held back as in a line, and sends its request when it may. -/
theorem run_keepPace {l : Line} (hNow : c.now = l.now) (hPacing : c.pacing = l.pacing)
    (hStage : c.stages[i]? = some .waiting) (hFree : 0 < c.free) :
    ∃ moves c', c.run? moves = some c' ∧ c'.now = l.keepPace.now ∧ c'.pacing = l.keepPace.pacing ∧
      c'.sent = c.sent ++ [l.keepPace.now] := by
  rw [Line.keepPace, Line.pass, ← hNow, ← hPacing]
  by_cases hReady : c.pacing.wait c.now = 0
  · refine ⟨[.enter i], c.send i, ?_, ?_⟩
    · rw [run?, step?_send hStage hFree hReady]
      rfl
    · rw [hReady]
      exact ⟨rfl, rfl, rfl⟩
  · let held := (c.put i (.held (c.now + c.pacing.wait c.now))).pass (c.pacing.wait c.now)
    have hHeld : held.stages[i]? = some (.held (c.now + c.pacing.wait c.now)) :=
      (stages_put hStage _ i).trans (if_pos rfl)
    refine ⟨[.enter i, .pass (c.pacing.wait c.now), .release i], held.send i, ?_, rfl, rfl, rfl⟩
    rw [run?, step?_hold hStage hFree hReady, Option.bind_some, run?, step?, Option.bind_some, run?,
      step?_release hHeld (Nat.le_refl _)]
    rfl

/-! ## However the calls run -/

/-- The last request is noted, and no call is held back for longer than an interval after it. -/
structure Noted (c : Calls) : Prop where
  last : c.pacing.last = c.sent.getLast?
  past : ∀ t ∈ c.pacing.last, t ≤ c.now
  held : ∀ i deadline : Nat, c.stages[i]? = some (.held deadline) →
    ∃ t, c.pacing.last = some t ∧ deadline ≤ t + c.pacing.interval
  asked : ∀ t ∈ c.pacing.last, ∃ i : Nat, c.stages[i]? = some .asking ∨ c.stages[i]? = some .finished

theorem noted_start (requests calls : Nat) : (start requests calls).Noted where
  last := rfl
  past := nofun
  held i deadline h := by
    rw [start, List.getElem?_replicate] at h
    split at h <;> cases h
  asked := nofun

/-- A call that is not held back comes an interval after the last request at least. -/
theorem Noted.ready (h : c.Noted) (hReady : c.pacing.wait c.now = 0) :
    ∀ t ∈ c.pacing.last, t + c.pacing.interval ≤ c.now := by
  intro t ht
  have hPast := h.past t ht
  rw [Pacing.wait, Option.mem_def.mp ht] at hReady
  dsimp only at hReady
  omega

/-- A call that is held back may go out an interval after the last request. -/
theorem Noted.early (h : c.Noted) (hEarly : 0 < c.pacing.wait c.now) :
    ∃ t, c.pacing.last = some t ∧ c.now + c.pacing.wait c.now = t + c.pacing.interval := by
  cases hLast : c.pacing.last with
  | none =>
    rw [Pacing.wait, hLast] at hEarly
    cases hEarly
  | some t =>
    have hPast := h.past t hLast
    refine ⟨t, rfl, ?_⟩
    rw [Pacing.wait, hLast] at hEarly ⊢
    dsimp only at hEarly ⊢
    omega

theorem Noted.send (h : c.Noted) (hStage : c.stages[i]? = some s) : (c.send i).Noted where
  last := (List.getLast?_concat).symm
  past := by
    rintro t ⟨⟩
    exact Nat.le_refl _
  held j deadline hHeld := by
    obtain ⟨t, hLast, hDeadline⟩ := h.held j deadline (held_of_put hStage rfl hHeld).2
    exact ⟨c.now, rfl, hDeadline.trans (Nat.add_le_add_right (h.past t hLast) _)⟩
  asked _ _ := ⟨i, Or.inl (by rw [Calls.send, stages_put hStage, if_pos rfl])⟩

theorem Noted.step (h : c.Noted) (hStep : Steps c m c') : c'.Noted := by
  cases hStep with
  | pass ms =>
    exact ⟨h.last, fun t ht => (h.past t ht).trans (Nat.le_add_right _ _), h.held, h.asked⟩
  | send hStage | release hStage => exact h.send hStage
  | @hold i hStage hFree hEarly =>
    refine ⟨h.last, h.past, fun j deadline hHeld => ?_, fun t ht => ?_⟩
    · rw [stages_put hStage] at hHeld
      split at hHeld
      · cases hHeld
        obtain ⟨t, hLast, hDeadline⟩ := h.early hEarly
        exact ⟨t, hLast, hDeadline.le⟩
      · exact h.held j deadline hHeld
    · obtain ⟨k, hAsked⟩ := h.asked t ht
      have hOther : i ≠ k := hAsked.elim (ne_of_stages hStage · nofun) (ne_of_stages hStage · nofun)
      exact ⟨k, by rwa [stages_put hStage, if_neg hOther]⟩
  | @answer i hStage =>
    exact ⟨h.last, h.past, fun j deadline hHeld => h.held j deadline (held_of_put hStage rfl hHeld).2,
      fun _ _ => ⟨i, Or.inr (by rw [stages_put hStage, if_pos rfl])⟩⟩

theorem noted_of_run {requests calls : Nat} (hRun : (start requests calls).run? moves = some c) :
    c.Noted :=
  run_induction Noted.step hRun (noted_start requests calls)

/-- A call that gets a permit while another one is held back can go out together with that one. -/
theorem Noted.exists_together (h : c.Noted) (hHeld : c.stages[i]? = some (.held deadline))
    (hStage : c.stages[j]? = some .waiting) (hFree : 0 < c.free) :
    ∃ moves c', c.run? moves = some c' ∧ ∃ t, c'.sent = c.sent ++ [t, t] := by
  obtain ⟨t, hLast, hDeadline⟩ := h.held i deadline hHeld
  have hOther : j ≠ i := ne_of_stages hStage hHeld nofun
  by_cases hReady : c.pacing.wait c.now = 0
  · -- The held call is late, and wakes up right behind the one that enters.
    have hStill : (c.send j).stages[i]? = some (.held deadline) := by
      rw [Calls.send, stages_put hStage, if_neg hOther, hHeld]
    have hPast : deadline ≤ c.now := hDeadline.trans (h.ready hReady t hLast)
    refine ⟨[.enter j, .release i], (c.send j).send i, ?_, c.now, ?_⟩
    · rw [run?, step?_send hStage hFree hReady, Option.bind_some, run?, step?_release hStill hPast]
      rfl
    · exact List.append_assoc _ _ _
  · -- Both wake up when the interval after the last request is over.
    obtain ⟨t', hLast', hNow⟩ := h.early (Nat.pos_of_ne_zero hReady)
    obtain rfl : t = t' := Option.some.inj (hLast.symm.trans hLast')
    let held := (c.put j (.held (c.now + c.pacing.wait c.now))).pass (c.pacing.wait c.now)
    have hFirst : held.stages[i]? = some (.held deadline) :=
      (stages_put hStage _ i).trans ((if_neg hOther).trans hHeld)
    have hSecond : (held.send i).stages[j]? = some (.held (c.now + c.pacing.wait c.now)) :=
      (stages_put hFirst _ j).trans
        ((if_neg hOther.symm).trans ((stages_put hStage _ j).trans (if_pos rfl)))
    refine ⟨[.enter j, .pass (c.pacing.wait c.now), .release i, .release j], (held.send i).send j,
      ?_, held.now, ?_⟩
    · rw [run?, step?_hold hStage hFree hReady, Option.bind_some, run?, step?, Option.bind_some, run?,
        step?_release hFirst (hDeadline.trans hNow.ge), Option.bind_some, run?,
        step?_release hSecond (Nat.le_refl _)]
      rfl
    · exact List.append_assoc _ _ _

/-! ## One after the other -/

/-- A call is held back. -/
def anyHeld (c : Calls) : Bool := c.stages.any Stage.isHeld

/-- No call gets a permit while another one is held back. -/
def orderly (c : Calls) : List Move → Bool
  | [] => true
  | m :: moves =>
      match c.step? m with
      | some c' => !(m.enters && c.anyHeld) && c'.orderly moves
      | none => true

theorem anyHeld_eq_false_iff :
    c.anyHeld = false ↔ ∀ i deadline : Nat, c.stages[i]? ≠ some (.held deadline) := by
  rw [anyHeld, List.any_eq_false]
  constructor
  · intro h i deadline hStage
    exact h _ (List.mem_of_getElem? hStage) rfl
  · intro h s hs hHeld
    obtain ⟨i, hi⟩ := List.mem_iff_getElem?.mp hs
    cases s with
    | held deadline => exact h i deadline hi
    | _ => cases hHeld

/-- At most one call is held back, and it is held back long enough. -/
structure Paced (c : Calls) : Prop where
  spaced : c.Spaced
  held : ∀ i deadline : Nat, c.stages[i]? = some (.held deadline) →
    ∀ t ∈ c.pacing.last, t + c.pacing.interval ≤ deadline
  alone : ∀ i j d e : Nat, c.stages[i]? = some (.held d) → c.stages[j]? = some (.held e) → i = j

theorem paced_start (requests calls : Nat) : (start requests calls).Paced where
  spaced := .nil
  held i deadline h := ((noted_start requests calls).held i deadline h).elim fun _ h => nomatch h.1
  alone i _ d _ h := ((noted_start requests calls).held i d h).elim fun _ h => nomatch h.1

/-- Times keep their distance if the next one keeps its distance to the last. -/
theorem pairwise_concat {times : List Nat} {d t : Nat}
    (h : times.Pairwise fun t u => t + d ≤ u) (hLast : ∀ u ∈ times.getLast?, u + d ≤ t) :
    (times ++ [t]).Pairwise fun t u => t + d ≤ u := by
  rw [List.pairwise_append]
  refine ⟨h, List.pairwise_singleton _ _, fun u hu v hv => ?_⟩
  obtain rfl := List.mem_singleton.mp hv
  obtain ⟨last, hSome⟩ := Option.isSome_iff_exists.mp (List.getLast?_isSome.mpr (List.ne_nil_of_mem hu))
  obtain ⟨front, rfl⟩ := List.getLast?_eq_some_iff.mp hSome
  have hEnd := hLast last hSome
  rcases List.mem_append.mp hu with hu | hu
  · have hFront := (List.pairwise_append.mp h).2.2 u hu last List.mem_cons_self
    omega
  · rw [List.mem_singleton.mp hu]
    exact hEnd

theorem Paced.send (h : c.Paced) (hNoted : c.Noted) (hStage : c.stages[i]? = some s)
    (hReady : ∀ t ∈ c.pacing.last, t + c.pacing.interval ≤ c.now)
    (hAlone : ∀ j deadline : Nat, c.stages[j]? = some (.held deadline) → i = j) : (c.send i).Paced := by
  have hNone : ∀ j deadline : Nat, (c.send i).stages[j]? ≠ some (.held deadline) := by
    intro j deadline hHeld
    obtain ⟨hOther, hBefore⟩ := held_of_put hStage rfl hHeld
    exact hOther (hAlone j deadline hBefore)
  refine ⟨?_, fun j deadline hHeld => absurd hHeld (hNone j deadline),
    fun j k d e hHeld => absurd hHeld (hNone j d)⟩
  exact pairwise_concat h.spaced fun u hu => hReady u (hNoted.last ▸ hu)

theorem Paced.step (h : c.Paced) (hNoted : c.Noted) (hStep : Steps c m c')
    (hOrderly : m.enters = true → c.anyHeld = false) : c'.Paced := by
  cases hStep with
  | pass ms => exact ⟨h.spaced, h.held, h.alone⟩
  | @send i hStage _ hReady =>
    have hNone := anyHeld_eq_false_iff.mp (hOrderly rfl)
    exact h.send hNoted hStage (hNoted.ready hReady) fun j d hHeld => absurd hHeld (hNone j d)
  | @hold i hStage _ hEarly =>
    have hNone := anyHeld_eq_false_iff.mp (hOrderly rfl)
    have hOnly : ∀ {j d : Nat}, (c.put i (.held (c.now + c.pacing.wait c.now))).stages[j]? =
        some (.held d) → i = j ∧ d = c.now + c.pacing.wait c.now := by
      intro j d hHeld
      rw [stages_put hStage] at hHeld
      split at hHeld
      · cases hHeld
        exact ⟨‹_›, rfl⟩
      · exact absurd hHeld (hNone j d)
    refine ⟨h.spaced, fun j d hHeld t ht => ?_, fun j k d e hj hk => (hOnly hj).1 ▸ (hOnly hk).1⟩
    obtain ⟨u, hLast, hDeadline⟩ := hNoted.early hEarly
    obtain rfl : u = t := Option.some.inj (hLast.symm.trans ht)
    exact (hOnly hHeld).2 ▸ hDeadline.ge
  | @release i deadline hStage hPast =>
    exact h.send hNoted hStage (fun t ht => (h.held i deadline hStage t ht).trans hPast)
      fun j d hHeld => h.alone i j deadline d hStage hHeld
  | @answer i hStage =>
    exact ⟨h.spaced, fun j d hHeld => h.held j d (held_of_put hStage rfl hHeld).2,
      fun j k d e hj hk => h.alone j k d e (held_of_put hStage rfl hj).2 (held_of_put hStage rfl hk).2⟩

theorem Paced.run (h : c.Paced) (hNoted : c.Noted) (hRun : c.run? moves = some c')
    (hOrderly : c.orderly moves = true) : c'.Paced := by
  induction moves generalizing c with
  | nil => exact Option.some.inj hRun ▸ h
  | cons m moves ih =>
    obtain ⟨c₁, hFirst, hRest⟩ := Option.bind_eq_some_iff.mp hRun
    simp only [orderly, hFirst, Bool.and_eq_true, Bool.not_eq_true', Bool.and_eq_false_imp] at hOrderly
    have hStep := steps_of_step? hFirst
    exact ih (h.step hNoted hStep hOrderly.1) (hNoted.step hStep) hRest hOrderly.2

/-! ## Few calls -/

/-- With one permit no other call is held back, and of two calls one has sent before the other is. -/
theorem Noted.anyHeld_eq_false (h : c.Noted) (hFew : c.permits ≤ 1 ∨ c.stages.length ≤ 2)
    (hStage : c.stages[i]? = some .waiting) (hFree : 0 < c.free) : c.anyHeld = false := by
  rw [anyHeld_eq_false_iff]
  intro j deadline hHeld
  rcases hFew with hPermits | hCalls
  · have hRuns : 0 < c.stages.countP Stage.runs :=
      List.countP_pos_iff.mpr ⟨_, List.mem_of_getElem? hHeld, rfl⟩
    rw [free] at hFree
    omega
  · obtain ⟨t, hLast, -⟩ := h.held j deadline hHeld
    obtain ⟨k, hAsked⟩ := h.asked t hLast
    have hLess : ∀ {l s}, c.stages[l]? = some s → l < c.stages.length := fun hSome =>
      (List.getElem?_eq_some_iff.mp hSome).1
    have hi := hLess hStage
    have hj := hLess hHeld
    have hk : k < c.stages.length := hAsked.elim hLess hLess
    have hij : i ≠ j := ne_of_stages hStage hHeld nofun
    have hik : i ≠ k := hAsked.elim (ne_of_stages hStage · nofun) (ne_of_stages hStage · nofun)
    have hjk : j ≠ k := hAsked.elim (ne_of_stages hHeld · nofun) (ne_of_stages hHeld · nofun)
    omega

theorem Noted.orderly_of_few (h : c.Noted) (hFew : c.permits ≤ 1 ∨ c.stages.length ≤ 2)
    (moves : List Move) : c.orderly moves = true := by
  induction moves generalizing c with
  | nil => rfl
  | cons m moves ih =>
    rw [orderly]
    cases hFirst : c.step? m with
    | none => rfl
    | some c' =>
      have hStep := steps_of_step? hFirst
      have hRest : c'.orderly moves = true :=
        ih (h.step hStep) (hStep.sameBounds.permits ▸ hStep.sameBounds.calls ▸ hFew)
      cases hStep with
      | send hStage hFree | hold hStage hFree =>
        rw [h.anyHeld_eq_false hFew hStage hFree]
        exact hRest
      | pass | release | answer => exact hRest

/-! ## Three calls -/

theorem interval_pos (requests : Nat) : 0 < (Pacing.perMinute requests).interval :=
  Nat.lt_of_lt_of_le (by decide) (Nat.le_max_right _ _)

/-- One call has been answered, the next one is held back, and there is a permit for a third one. -/
def second (requests calls : Nat) : Calls :=
  ⟨0, (Pacing.perMinute requests).sent 0, max requests 1,
    .finished :: .held (Pacing.perMinute requests).interval :: .waiting ::
      List.replicate calls .waiting, [0]⟩

theorem free_append_replicate (now : Nat) (pacing : Pacing) (permits : Nat) (stages : List Stage)
    (calls : Nat) (sent : List Nat) :
    (Calls.mk now pacing permits (stages ++ List.replicate calls .waiting) sent).free =
      permits - stages.countP Stage.runs := by
  rw [free, List.countP_append, List.countP_replicate, if_neg (by decide), Nat.add_zero]

theorem free_second {requests : Nat} (hRequests : 2 ≤ requests) (calls : Nat) :
    0 < (second requests calls).free := by
  have hFree := free_append_replicate 0 ((Pacing.perMinute requests).sent 0) (max requests 1)
    [.finished, .held (Pacing.perMinute requests).interval, .waiting] calls [0]
  have hRuns : (second requests calls).free = max requests 1 - 1 := hFree
  omega

theorem run?_second {requests : Nat} (hRequests : 2 ≤ requests) (calls : Nat) :
    (start requests (calls + 3)).run? [.enter 0, .enter 1, .answer 0] =
      some (second requests calls) := by
  have hFree : 0 < (start requests (calls + 3)).free := by
    have hNone : (start requests (calls + 3)).free = max requests 1 :=
      free_append_replicate 0 (.perMinute requests) (max requests 1) [] (calls + 3) []
    omega
  have hMore : 0 < ((start requests (calls + 3)).send 0).free := by
    have hOne : ((start requests (calls + 3)).send 0).free = max requests 1 - 1 :=
      free_append_replicate 0 ((Pacing.perMinute requests).sent 0) (max requests 1)
        [.asking, .waiting, .waiting] calls [0]
    omega
  have hWait : 0 + ((Pacing.perMinute requests).sent 0).wait 0 = (Pacing.perMinute requests).interval :=
    Nat.zero_add _
  have hEarly : ((start requests (calls + 3)).send 0).pacing.wait 0 ≠ 0 :=
    Nat.ne_of_gt (interval_pos requests)
  rw [run?, step?_send rfl hFree rfl, Option.bind_some, run?, step?_hold rfl hMore hEarly,
    Option.bind_some, run?, step?_answer rfl, Option.bind_some, run?, Option.some.injEq]
  change Calls.mk 0 ((Pacing.perMinute requests).sent 0) (max requests 1)
    (.finished :: .held (0 + ((Pacing.perMinute requests).sent 0).wait 0) :: .waiting ::
      List.replicate calls .waiting) [0] = second requests calls
  rw [hWait, second]

/-! ## Main result -/

/-- Requests keep the distance as long as no call gets a permit while another one is held back. A call
that does can go out together with the one that is held back. So the distance is kept, however the
calls run, just by the clients that have one permit, and by two calls. -/
theorem spacing (requests calls : Nat) :
    (∀ moves c, (start requests calls).run? moves = some c →
      (start requests calls).orderly moves = true →
        c.sent.Pairwise fun t u => t + (Pacing.perMinute requests).interval ≤ u) ∧
    (∀ moves c, (start requests calls).run? moves = some c →
      ∀ i j deadline : Nat, c.stages[i]? = some (.held deadline) → c.stages[j]? = some .waiting →
        0 < c.free → ∃ more c', c.run? more = some c' ∧ ∃ t, c'.sent = c.sent ++ [t, t]) ∧
    ((∀ moves c, (start requests calls).run? moves = some c →
      c.sent.Pairwise fun t u => t + (Pacing.perMinute requests).interval ≤ u) ↔
        requests ≤ 1 ∨ calls ≤ 2) := by
  have hOrderly : ∀ moves c, (start requests calls).run? moves = some c →
      (start requests calls).orderly moves = true →
        c.sent.Pairwise fun t u => t + (Pacing.perMinute requests).interval ≤ u := by
    intro moves c hRun hOrderly
    have hPaced := (paced_start requests calls).run (noted_start requests calls) hRun hOrderly
    have hInterval : c.pacing.interval = (Pacing.perMinute requests).interval :=
      (sameBounds_of_run hRun).interval
    exact hInterval ▸ hPaced.spaced
  refine ⟨hOrderly, fun moves c hRun i j deadline hHeld hStage hFree =>
    (noted_of_run hRun).exists_together hHeld hStage hFree,
    fun hSpaced => ?_, fun hFew moves c hRun => ?_⟩
  · by_contra hMany
    obtain ⟨hRequests, hCalls⟩ := not_or.mp hMany
    obtain ⟨others, rfl⟩ : ∃ others, calls = others + 3 := ⟨calls - 3, by omega⟩
    have hRun : (start requests (others + 3)).run? [.enter 0, .enter 1, .answer 0] =
        some (second requests others) := run?_second (by omega) others
    obtain ⟨more, c, hMore, t, hSent⟩ := (noted_of_run hRun).exists_together (i := 1) (j := 2) rfl rfl
      (free_second (by omega) others)
    have hTogether := hSpaced _ c (run?_append.trans ((congrArg (Option.bind · _) hRun).trans hMore))
    have hPos := interval_pos requests
    rw [hSent] at hTogether
    have hSame : t + (Pacing.perMinute requests).interval ≤ t :=
      List.rel_of_pairwise_cons (List.pairwise_append.mp hTogether).2.1 (List.mem_singleton_self t)
    omega
  · refine hOrderly moves c hRun ((noted_start requests calls).orderly_of_few ?_ moves)
    rcases hFew with hRequests | hCalls
    · exact Or.inl (Nat.max_le.mpr ⟨hRequests, Nat.le_refl 1⟩)
    · exact Or.inr (by rw [start, List.length_replicate]; exact hCalls)

/-- Three calls, one after the other. -/
def inTurn : List Move :=
  [.enter 0, .enter 1, .pass 12, .release 1, .enter 2, .pass 10, .release 2]

theorem spacing_three_calls :
    (∃ c, (start 6000 3).run? inTurn = some c ∧
      c.sent = [0, 12, 22] ∧ c.sent.Pairwise fun t u => t + 10 ≤ u) ∧
    (∃ c, (start 6000 3).run? [.enter 0, .enter 1] = some c ∧
      ∃ more c', c.run? more = some c' ∧ ∃ t, c'.sent = c.sent ++ [t, t]) ∧
    ∀ moves c, (start 1 3).run? moves = some c → c.sent.Pairwise fun t u => t + 60000 ≤ u := by
  obtain ⟨hOrderly, hTogether, -⟩ := spacing 6000 3
  refine ⟨⟨_, rfl, rfl, hOrderly inTurn _ rfl (by decide)⟩, ⟨_, rfl, ?_⟩, ?_⟩
  · exact hTogether [.enter 0, .enter 1] _ rfl 1 2 10 rfl rfl (by decide)
  · exact (spacing 1 3).2.2.mpr (Or.inl (Nat.le_refl 1))

/-- Two calls are held back after the first one, and go out at the same time. -/
theorem not_spaced_three_calls :
    ¬ ∀ moves c, (start 6000 3).run? moves = some c →
      c.sent.Pairwise fun t u => t + (Pacing.perMinute 6000).interval ≤ u := by
  intro hSpaced
  have hTogether := hSpaced
    [.enter 0, .enter 1, .enter 2, .pass 10, .release 1, .release 2] _ rfl
  exact absurd hTogether (by decide)

end Calls

end FormulaOutline.Http
