import ScriptHost.Bench.Outcome
import ScriptHost.Proofs.Scopes.Programs

set_option autoImplicit false

/-!
What becomes of the payload of an outcome.

Whatever is done to an outcome and in whatever order, its payload goes one way only: it stays inside, it is handed over,
or the outcome releases it. `Deals` says once what a step can do; the rest follows from it.
-/

namespace ScriptHost

/-- The outcome on one side, success or failure. -/
def Outcome.onSide (success : Bool) (slot : Slot Probe) : Outcome Probe Probe :=
  if success then .success slot else .failure slot

/-- The payload as it is after this many releases that did not succeed. -/
def Probe.after (p : Probe) (attempts : Nat) : Probe :=
  { p with script := p.script.drop attempts }

namespace Outcome

variable {side : Bool} {slot : Slot Probe}

theorem eq_onSide (o : Outcome Probe Probe) : ∃ slot, o = onSide o.isSuccess slot := by
  cases o <;> exact ⟨_, rfl⟩

@[simp] theorem isSuccess_onSide : (onSide side slot).isSuccess = side := by
  cases side <;> rfl

@[simp] theorem held?_onSide : (onSide side slot).held? = slot.payload? := by
  cases side <;> cases slot <;> rfl

theorem matchWith_onSide {ρ : Type} (f g : Probe -> ρ) :
    (onSide side slot).matchWith f g = slot.take.map (if side then f else g) := by
  cases side <;> rfl

end Outcome

/-- What is inside, if the outcome has not been used up. -/
def OutcomeBench.held? (b : OutcomeBench) : Option Probe :=
  b.outcome.bind Outcome.held?

@[simp] theorem OutcomeBench.held?_onSide (side : Bool) (slot : Slot Probe) (taken : Option Probe) :
    OutcomeBench.held? ⟨some (.onSide side slot), taken⟩ = slot.payload? :=
  Outcome.held?_onSide

@[simp] theorem OutcomeBench.held?_none (taken : Option Probe) : OutcomeBench.held? ⟨none, taken⟩ = none :=
  rfl

namespace OutcomeStep

open Outcome (onSide)

def observes : OutcomeStep -> Bool
  | flags | success | failure | peek | matchWith | render => true
  | _ => false

def disposes : OutcomeStep -> Bool
  | dispose | release => true
  | _ => false

/-- The step that asks for the payload of an outcome on this side. -/
def takeOn (side : Bool) : OutcomeStep :=
  if side then takeSuccess else takeFailure

/-- What a step can do, with its answer, to an outcome on one side and to what was taken from it. -/
inductive Deals (side : Bool) : OutcomeBench -> OutcomeStep -> Answer -> List ReleaseEvent -> OutcomeBench -> Prop where
  | looks {step : OutcomeStep} (slot : Slot Probe) (taken : Option Probe) (answer : Answer) (observes : step.observes = true) :
      Deals side ⟨some (onSide side slot), taken⟩ step answer [] ⟨some (onSide side slot), taken⟩
  | mistakes {step : OutcomeStep} (slot : Slot Probe) (taken : Option Probe) (e : Error) (wrong : step = takeOn !side) :
      Deals side ⟨some (onSide side slot), taken⟩ step (.failure e) [] ⟨some (onSide side slot), taken⟩
  | takes {step : OutcomeStep} (p : Probe) (taken : Option Probe) (right : step = takeOn side) :
      Deals side ⟨some (onSide side (.live p)), taken⟩ step (.text p.name) [] ⟨some (onSide side .transferred), some p⟩
  | misses {step : OutcomeStep} (taken : Option Probe) (right : step = takeOn side) :
      Deals side ⟨some (onSide side .transferred), taken⟩ step (.failure (.usedAfterRelease "outcome payload")) []
        ⟨some (onSide side .transferred), taken⟩
  | empties (p : Probe) (taken : Option Probe) :
      Deals side ⟨some (onSide side (.live p)), taken⟩ toResult (.list [.text (if side then "ok" else "err"), .text p.name]) []
        ⟨none, some p⟩
  | discards (taken : Option Probe) :
      Deals side ⟨some (onSide side .transferred), taken⟩ toResult (.failure (.usedAfterRelease "outcome payload")) [] ⟨none, taken⟩
  | releases {step : OutcomeStep} (p : Probe) (taken : Option Probe) (disposes : step.disposes = true) (well : p.ending = .done) :
      Deals side ⟨some (onSide side (.live p)), taken⟩ step .ok [.released p.name] ⟨some (onSide side .transferred), taken⟩
  | fails {step : OutcomeStep} (p : Probe) (taken : Option Probe) (e : Error) (disposes : step.disposes = true)
      (failed : p.ending.toExcept = .error e) :
      Deals side ⟨some (onSide side (.live p)), taken⟩ step (.failure e) [.released p.name] ⟨some (onSide side (.live p.spent)), taken⟩
  | rests {step : OutcomeStep} (taken : Option Probe) (disposes : step.disposes = true) :
      Deals side ⟨some (onSide side .transferred), taken⟩ step .ok [] ⟨some (onSide side .transferred), taken⟩
  -- The caller releases what it has taken.
  | outside (outcome : Option (Outcome Probe Probe)) (taken taken' : Option Probe) (answer : Answer) (events : List ReleaseEvent) :
      Deals side ⟨outcome, taken⟩ releaseTaken answer events ⟨outcome, taken'⟩
  | lacks {step : OutcomeStep} (taken : Option Probe) (other : step ≠ releaseTaken) :
      Deals side ⟨none, taken⟩ step (.text "consumed") [] ⟨none, taken⟩

/-- The step comes to an end, and it is one of the deals. -/
def Shows (side : Bool) (b : OutcomeBench) (step : OutcomeStep) : Prop :=
  ∃ answer events b', (run b step).Yields (answer, b') events ∧ Deals side b step answer events b'

theorem dispose_shows (side : Bool) (slot : Slot Probe) (taken : Option Probe) {step : OutcomeStep} (disposes : step.disposes = true) :
    Shows side ⟨some (onSide side slot), taken⟩ step := by
  have same : run ⟨some (onSide side slot), taken⟩ step = run ⟨some (onSide side slot), taken⟩ dispose := by
    cases step <;> first | rfl | cases disposes
  rw [Shows, same]
  cases slot with
  | transferred => cases side <;> exact ⟨_, [], _, .pure _, .rests taken disposes⟩
  | live p =>
    have released := p.release_yields
    cases ending : p.ending with
    | done =>
      rw [ending] at released
      refine ⟨_, _, _, ?_, .releases p taken disposes ending⟩
      cases side <;> exact ((released.thenPure _).thenPure _).thenPure _
    | failed e =>
      rw [ending] at released
      refine ⟨_, _, _, ?_, .fails p taken e disposes (ending ▸ rfl)⟩
      cases side <;> exact ((released.thenPure _).thenPure _).thenPure _
    | panicked panic =>
      rw [ending] at released
      refine ⟨_, _, _, ?_, .fails p taken (.ofPanic panic) disposes (ending ▸ rfl)⟩
      cases side <;> exact ((released.thenPure _).thenPure _).thenPure _

theorem step_shows (side : Bool) (b : OutcomeBench) (sided : ∀ o, b.outcome = some o -> o.isSuccess = side) (step : OutcomeStep) :
    Shows side b step := by
  by_cases outside : step = releaseTaken
  next =>
    subst outside
    obtain ⟨outcome, _ | p⟩ := b
    next => exact ⟨_, [], _, .pure _, .outside outcome _ _ _ _⟩
    next => exact ⟨_, _, _, p.release_yields.thenPure _, .outside outcome _ _ _ _⟩
  next =>
    obtain ⟨_ | o, taken⟩ := b
    next =>
      refine ⟨_, [], _, ?_, .lacks taken outside⟩
      cases step <;> first | exact .pure _ | exact absurd rfl outside
    next =>
      obtain ⟨slot, here⟩ := o.eq_onSide
      rw [sided o rfl] at here
      subst here
      cases step with
      | releaseTaken => exact absurd rfl outside
      | dispose | release => exact dispose_shows side slot taken rfl
      | takeSuccess =>
        cases side with
        | false => exact ⟨_, [], _, .pure _, .mistakes slot taken _ rfl⟩
        | true =>
          cases slot with
          | live p => exact ⟨_, [], _, .pure _, .takes p taken rfl⟩
          | transferred => exact ⟨_, [], _, .pure _, .misses taken rfl⟩
      | takeFailure =>
        cases side with
        | true => exact ⟨_, [], _, .pure _, .mistakes slot taken _ rfl⟩
        | false =>
          cases slot with
          | live p => exact ⟨_, [], _, .pure _, .takes p taken rfl⟩
          | transferred => exact ⟨_, [], _, .pure _, .misses taken rfl⟩
      | toResult =>
        cases slot with
        | live p => cases side <;> exact ⟨_, [], _, .pure _, .empties p taken⟩
        | transferred => cases side <;> exact ⟨_, [], _, .pure _, .discards taken⟩
      | _ => exact ⟨_, [], _, .pure _, .looks slot taken _ rfl⟩

theorem observes_takeOn {side : Bool} {step : OutcomeStep} (asks : step = takeOn side) : step.observes = false := by
  subst asks
  cases side <;> rfl

theorem disposes_takeOn {side : Bool} {step : OutcomeStep} (asks : step = takeOn side) : step.disposes = false := by
  subst asks
  cases side <;> rfl

/-- What the step hands over to the caller of an outcome. -/
def gain? (o : Outcome Probe Probe) : OutcomeStep -> Option Probe
  | takeSuccess => o.takeSuccess.1.toOption
  | takeFailure => o.takeFailure.1.toOption
  | toResult =>
      match o.toResult with
      | .ok (.ok p) | .ok (.error p) => some p
      | .error _ => none
  | _ => none

theorem gain?_takeOn {side : Bool} {step : OutcomeStep} (slot : Slot Probe) (right : step = takeOn side) :
    gain? (onSide side slot) step = slot.payload? := by
  subst right
  cases side <;> cases slot <;> rfl

theorem gain?_takeOther {side : Bool} {step : OutcomeStep} (slot : Slot Probe) (wrong : step = takeOn !side) :
    gain? (onSide side slot) step = none := by
  subst wrong
  cases side <;> rfl

theorem gain?_toResult (side : Bool) (slot : Slot Probe) : gain? (onSide side slot) toResult = slot.payload? := by
  cases side <;> cases slot <;> rfl

theorem gain?_observes {o : Outcome Probe Probe} {step : OutcomeStep} (observes : step.observes = true) : gain? o step = none := by
  cases step <;> first | rfl | cases observes

theorem gain?_disposes {o : Outcome Probe Probe} {step : OutcomeStep} (disposes : step.disposes = true) : gain? o step = none := by
  cases step <;> first | rfl | cases disposes

/-- A step of a program, with what comes of it. -/
structure Turn where
  before : OutcomeBench
  step : OutcomeStep
  answer : Answer
  events : List ReleaseEvent
  after : OutcomeBench

def turn (b : OutcomeBench) (step : OutcomeStep) : Turn :=
  let ((answer, after), events) := (run b step).run []
  ⟨b, step, answer, events.reverse, after⟩

def turns (b : OutcomeBench) : List OutcomeStep -> List Turn
  | [] => []
  | first :: rest => turn b first :: turns (turn b first).after rest

/-- What a program leaves behind. -/
def left (b : OutcomeBench) (program : List OutcomeStep) : OutcomeBench :=
  program.foldl (fun b step => (turn b step).after) b

namespace Turn

/-- What the turn hands over to the caller. -/
def gain? (t : Turn) : Option Probe :=
  t.before.outcome.bind fun o => OutcomeStep.gain? o t.step

def gains (t : Turn) : Bool :=
  t.gain?.isSome

/-- What the outcome releases in the turn. Releasing what was handed over is not its doing. -/
def releases (t : Turn) : List ReleaseEvent :=
  match t.step with
  | releaseTaken => []
  | _ => t.events

def isOk (t : Turn) : Bool :=
  match t.answer with
  | .ok => true
  | _ => false

/-- The outcome releases its payload, with success. -/
def clears (t : Turn) : Bool :=
  !t.releases.isEmpty && t.isOk

/-- The payload leaves the outcome. -/
def spends (t : Turn) : Bool :=
  t.gains || t.clears

variable {b b' : OutcomeBench} {o : Outcome Probe Probe} {taken : Option Probe} {step : OutcomeStep} {answer : Answer}
variable {events : List ReleaseEvent}

theorem gain?_some : gain? ⟨⟨some o, taken⟩, step, answer, events, b'⟩ = OutcomeStep.gain? o step :=
  rfl

theorem gain?_none : gain? ⟨⟨none, taken⟩, step, answer, events, b'⟩ = none :=
  rfl

theorem gain?_outside : gain? ⟨b, releaseTaken, answer, events, b'⟩ = none := by
  obtain ⟨_ | o, taken⟩ := b <;> rfl

@[simp] theorem releases_quiet : releases ⟨b, step, answer, [], b'⟩ = [] := by
  cases step <;> rfl

theorem releases_disposes (disposes : step.disposes = true) : releases ⟨b, step, answer, events, b'⟩ = events := by
  cases step <;> first | rfl | cases disposes

variable {side : Bool} {t : Turn}

/-- The turn is one of the deals. -/
def Fair (side : Bool) (t : Turn) : Prop :=
  Deals side t.before t.step t.answer t.events t.after

theorem Fair.sided (fair : t.Fair side) (before : ∀ o, t.before.outcome = some o -> o.isSuccess = side) :
    ∀ o, t.after.outcome = some o -> o.isSuccess = side := by
  obtain ⟨b, step, answer, events, b'⟩ := t
  cases fair with
  | outside => exact before
  | _ => simp

/-- The payload stays, is handed over or is cleared away: one of these, and once. -/
theorem Fair.balanced (fair : t.Fair side) :
    t.after.held?.isSome.toNat + t.gains.toNat + t.clears.toNat = t.before.held?.isSome.toNat := by
  obtain ⟨b, step, answer, events, b'⟩ := t
  cases fair with
  | looks slot taken answer observes => simp [gains, clears, gain?_some, gain?_observes observes]
  | mistakes slot taken e wrong => simp [gains, clears, gain?_some, gain?_takeOther slot wrong]
  | takes p taken right => simp [gains, clears, gain?_some, gain?_takeOn _ right, Slot.payload?]
  | misses taken right => simp [gains, clears, gain?_some, gain?_takeOn _ right, Slot.payload?]
  | empties p taken => simp [gains, clears, gain?_some, gain?_toResult, Slot.payload?]
  | discards taken => simp [gains, clears, gain?_some, gain?_toResult, Slot.payload?]
  | releases p taken disposes well =>
    simp [gains, clears, gain?_some, gain?_disposes disposes, releases_disposes disposes, isOk, Slot.payload?]
  | fails p taken e disposes failed =>
    simp [gains, clears, gain?_some, gain?_disposes disposes, isOk, Slot.payload?]
  | rests taken disposes => simp [gains, clears, gain?_some, gain?_disposes disposes, Slot.payload?]
  | outside outcome taken taken' => simp [gains, clears, gain?_outside, releases, OutcomeBench.held?]
  | lacks => simp [gains, clears, gain?_none]

/-- What is handed over is what was inside. -/
theorem Fair.gained {p : Probe} (fair : t.Fair side) (gained : t.gain? = some p) : t.before.held? = some p := by
  obtain ⟨b, step, answer, events, b'⟩ := t
  cases fair with
  | looks slot taken answer observes =>
    rw [gain?_some, gain?_observes observes] at gained
    cases gained
  | mistakes slot taken e wrong =>
    rw [gain?_some, gain?_takeOther slot wrong] at gained
    cases gained
  | takes _ _ right | misses _ right =>
    rw [gain?_some, gain?_takeOn _ right] at gained
    exact (OutcomeBench.held?_onSide side _ _).trans gained
  | empties | discards =>
    rw [gain?_some, gain?_toResult] at gained
    exact (OutcomeBench.held?_onSide side _ _).trans gained
  | releases _ _ disposes | fails _ _ _ disposes | rests _ disposes =>
    rw [gain?_some, gain?_disposes disposes] at gained
    cases gained
  | outside =>
    rw [gain?_outside] at gained
    cases gained
  | lacks => cases gained

/-- What stays inside is what was inside, but for the releases that it has been through. -/
theorem Fair.kept {q : Probe} (fair : t.Fair side) (held : t.after.held? = some q) :
    ∃ p, t.before.held? = some p ∧ q = p.after t.releases.length := by
  obtain ⟨b, step, answer, events, b'⟩ := t
  cases fair with
  | looks | mistakes => exact ⟨q, held, by simp [Probe.after]⟩
  | outside => exact ⟨q, held, by simp [Probe.after, releases]⟩
  | takes | misses | releases | rests => simp [Slot.payload?] at held
  | empties | discards | lacks => cases held
  | fails p taken e disposes failed =>
    obtain rfl : p.spent = q := by simpa [Slot.payload?] using held
    exact ⟨p, by simp [Slot.payload?], by simp [releases_disposes disposes, Probe.after, Probe.spent]⟩

theorem Fair.empty (fair : t.Fair side) (held : t.before.held? = none) : t.releases = [] := by
  obtain ⟨b, step, answer, events, b'⟩ := t
  cases fair with
  | releases | fails => simp [Slot.payload?] at held
  | outside => rfl
  | _ => exact releases_quiet

theorem Fair.disposed (fair : t.Fair side) (disposes : t.step.disposes = true) (there : t.before.outcome.isSome = true) :
    t.releases = t.before.held?.toList.map (fun p => .released p.name) ∧
      t.answer = .ofResult ((t.before.held?.map Probe.ending).getD .done).toExcept := by
  obtain ⟨b, step, answer, events, b'⟩ := t
  cases fair with
  | looks slot taken answer observes => cases step <;> cases observes <;> cases disposes
  | mistakes _ _ _ other | takes _ _ other | misses _ other => cases (disposes_takeOn other).symm.trans disposes
  | empties | discards | outside => cases disposes
  | lacks => cases there
  | releases p taken _ well => simp [releases_disposes disposes, Slot.payload?, well, Ending.toExcept, Answer.ofResult]
  | fails p taken e _ failed => simp [releases_disposes disposes, Slot.payload?, failed, Answer.ofResult]
  | rests taken => simp [Slot.payload?, Ending.toExcept, Answer.ofResult]

theorem Fair.mistaken (fair : t.Fair side) (wrong : t.step = takeOn !side) : t.after = t.before ∧ t.events = [] := by
  obtain ⟨b, step, answer, events, b'⟩ := t
  cases fair with
  | looks | mistakes | misses | rests | lacks => exact ⟨rfl, rfl⟩
  | takes _ _ right => cases side <;> cases right.symm.trans wrong
  | empties | discards | outside => cases side <;> cases wrong
  | releases _ _ disposes | fails _ _ _ disposes => cases (disposes_takeOn wrong).symm.trans disposes

theorem Fair.observed (fair : t.Fair side) (observes : t.step.observes = true) : t.after = t.before ∧ t.events = [] := by
  obtain ⟨b, step, answer, events, b'⟩ := t
  cases fair with
  | looks | mistakes | misses | rests | lacks => exact ⟨rfl, rfl⟩
  | takes _ _ right => cases (observes_takeOn right).symm.trans observes
  | empties | discards | outside => cases observes
  | releases _ _ disposes | fails _ _ _ disposes => cases step <;> cases observes <;> cases disposes

theorem Fair.ungained (fair : t.Fair side) (disposes : t.step.disposes = true) : t.gains = false := by
  obtain ⟨⟨_ | o, taken⟩, step, answer, events, b'⟩ := t
  next => rfl
  next => rw [gains, gain?_some, gain?_disposes disposes, Option.isSome_none]

theorem Fair.empties (fair : t.Fair side) (spends : t.spends = true) : t.after.held? = none := by
  have balanced := fair.balanced
  have once : t.before.held?.isSome.toNat ≤ 1 := Bool.toNat_le _
  have moved : 1 ≤ t.gains.toNat + t.clears.toNat := by
    rcases (Bool.or_eq_true _ _).mp spends with gains | clears
    next => simp [gains]
    next => simp [clears]
  have gone : t.after.held?.isSome.toNat = 0 := by omega
  simpa using gone

end Turn

section

variable {side : Bool} {b : OutcomeBench}

/-- What is left of the outcome, if anything, is on this side. -/
def Sided (side : Bool) (b : OutcomeBench) : Prop :=
  ∀ o, b.outcome = some o -> o.isSuccess = side

theorem turn_fair (sided : Sided side b) (step : OutcomeStep) : (turn b step).Fair side := by
  obtain ⟨answer, events, b', yields, deals⟩ := step_shows side b sided step
  have ran := yields []
  have here : turn b step = ⟨b, step, answer, events, b'⟩ := by simp [turn, ran]
  rwa [here]

theorem turn_sided (sided : Sided side b) (step : OutcomeStep) : Sided side (turn b step).after :=
  (turn_fair sided step).sided sided

theorem runAll_eq (b : OutcomeBench) (program : List OutcomeStep) :
    runAll b program = (turns b program).map fun t => (t.answer, t.events) := by
  induction program generalizing b with
  | nil => rfl
  | cons first rest ih =>
    simp only [runAll, turns, List.map_cons, ih]
    rfl

theorem turns_split {program : List OutcomeStep} {early late : List Turn} {t : Turn} (split : turns b program = early ++ t :: late) :
    ∃ before step after, program = before ++ step :: after ∧ early = turns b before ∧ t = turn (left b before) step ∧
      late = turns t.after after := by
  induction early generalizing b program with
  | nil =>
    cases program with
    | nil => cases split
    | cons step rest =>
      obtain ⟨rfl, rfl⟩ := List.cons.inj split
      exact ⟨[], step, rest, rfl, rfl, rfl, rfl⟩
  | cons t' early ih =>
    cases program with
    | nil => cases split
    | cons first rest =>
      rw [List.cons_append] at split
      obtain ⟨rfl, remaining⟩ := List.cons.inj split
      obtain ⟨before, step, after, rfl, rfl, here, behind⟩ := ih remaining
      exact ⟨first :: before, step, after, rfl, rfl, here, behind⟩

theorem left_sided (sided : Sided side b) (program : List OutcomeStep) : Sided side (left b program) := by
  induction program generalizing b with
  | nil => exact sided
  | cons first rest ih => exact ih (turn_sided sided first)

theorem turns_fair (sided : Sided side b) {program : List OutcomeStep} {t : Turn} (member : t ∈ turns b program) :
    t.Fair side ∧ Sided side t.after := by
  obtain ⟨early, late, split⟩ := List.append_of_mem member
  obtain ⟨before, step, after, -, -, rfl, -⟩ := turns_split split
  have so_far := left_sided sided before
  exact ⟨turn_fair so_far step, turn_sided so_far step⟩

/-- The payload goes one way in a whole program. -/
theorem left_balanced (sided : Sided side b) (program : List OutcomeStep) :
    (left b program).held?.isSome.toNat + (turns b program).countP Turn.gains + (turns b program).countP Turn.clears =
      b.held?.isSome.toNat := by
  induction program generalizing b with
  | nil => rfl
  | cons first rest ih =>
    have balanced := (turn_fair sided first).balanced
    have later := ih (turn_sided sided first)
    have before : (turn b first).before = b := rfl
    have ends : left b (first :: rest) = left (turn b first).after rest := rfl
    rw [before] at balanced
    have tally (x : Bool) : (if x = true then 1 else 0) = x.toNat := by cases x <;> rfl
    rw [ends, turns, List.countP_cons, List.countP_cons, tally, tally]
    omega

theorem left_kept (sided : Sided side b) {program : List OutcomeStep} {q : Probe} (held : (left b program).held? = some q) :
    ∃ p, b.held? = some p ∧ q = p.after ((turns b program).flatMap Turn.releases).length := by
  induction program generalizing b with
  | nil => exact ⟨q, held, by simp [turns, Probe.after]⟩
  | cons first rest ih =>
    obtain ⟨p', there, rfl⟩ := ih (turn_sided sided first) held
    obtain ⟨p, here, rfl⟩ := (turn_fair sided first).kept there
    exact ⟨p, here, by simp [turns, Probe.after]⟩

theorem turns_idle (sided : Sided side b) (empty : b.held? = none) {program : List OutcomeStep} {t : Turn}
    (member : t ∈ turns b program) : t.before.held? = none ∧ t.releases = [] ∧ t.gain? = none := by
  obtain ⟨early, late, split⟩ := List.append_of_mem member
  obtain ⟨before, step, after, -, -, rfl, -⟩ := turns_split split
  have so_far := left_sided sided before
  have fair := turn_fair so_far step
  have still : (left b before).held? = none := by
    cases held : (left b before).held? with
    | none => rfl
    | some q =>
      obtain ⟨p, here, -⟩ := left_kept sided held
      cases empty.symm.trans here
  refine ⟨still, fair.empty still, ?_⟩
  cases gained : (turn (left b before) step).gain? with
  | none => rfl
  | some q => cases still.symm.trans (fair.gained gained)

end

/-- An outcome with its payload inside, from which nothing has been taken. -/
def start (side : Bool) (p : Probe) : OutcomeBench :=
  ⟨some (onSide side (.live p)), none⟩

/-- Disposes a scope in which an outcome was deferred, and changed through the view of it. -/
def disposeChanged (stack : List (ScopeEntry Probed)) (o o' : Outcome Probe Probe) :
    ReleaseLog (Except Error Unit × Scope Probed) := do
  let (_, s) <- Scope.defer ⟨false, stack⟩ (.leaf (.outcome o))
  (s.replaceNewest (.leaf (.outcome o'))).dispose

/-- The outcome releases its payload at most once and lets it go at most once, whatever a program does to it. -/
structure SpendsOnce (side : Bool) (p : Probe) (program : List OutcomeStep) (T : List Turn) (b : OutcomeBench) : Prop where
  shown : runAll (start side p) program = T.map fun t => (t.answer, t.events)
  sided : ∀ t ∈ T, Sided side t.after
  -- The payload is inside, or was handed over, or was released: one of these, and once.
  fate : b.held?.isSome.toNat + T.countP Turn.gains + T.countP Turn.clears = 1
  final : ∀ early t late, T = early ++ t :: late -> t.spends = true -> ∀ t' ∈ late, t'.releases = [] ∧ t'.gain? = none ∧
    (t'.step.disposes = true -> t'.before.outcome.isSome = true -> t'.answer = .ok)
  -- It is the same payload all the time.
  same : ∀ early t late, T = early ++ t :: late -> ∀ q, t.before.held? = some q ∨ t.gain? = some q ->
    q = p.after (early.flatMap Turn.releases).length
  -- What does not spend it, such as a release that fails, leaves it inside.
  kept : ∀ t ∈ T, t.spends = false -> t.after.held? = t.before.held?.map fun q => q.after t.releases.length
  attempted : ∀ t ∈ T, ∀ q, t.before.held? = some q -> t.step.disposes = true ->
    t.releases = [.released q.name] ∧ t.answer = .ofResult q.ending.toExcept ∧ (t.spends = true ↔ q.ending.toExcept = .ok ())
  mistaken : ∀ t ∈ T, t.step = takeOn !side -> t.after = t.before ∧ t.events = []
  observed : ∀ t ∈ T, t.step.observes = true -> t.after = t.before ∧ t.events = []
  retrievable : ∀ o q, b.outcome = some o -> o.held? = some q -> gain? o (takeOn side) = some q ∧ gain? o toResult = some q
  -- Actions can be the results, so this says which of them runs.
  matched : ∀ o, b.outcome = some o -> ∀ (ρ : Type) (f g : Probe -> ρ), o.matchWith f g =
    match o.held? with
    | some q => .ok ((if side then f else g) q)
    | none => .error (.usedAfterRelease "outcome payload")
  -- A scope releases what the program has left inside, and nothing if the payload is spent.
  deferred : ∀ o, b.outcome = some o -> ∀ stack, (disposeChanged stack (onSide side (.live p)) o).Yields
    (Scope.report ⟨false, .leaf (.outcome o) :: stack⟩, Scope.closed)
    (o.held?.toList.map (fun q => .released q.name) ++ ScopeEntry.traceOf stack)

theorem program_spendsOnce (side : Bool) (p : Probe) (program : List OutcomeStep) :
    SpendsOnce side p program (turns (start side p) program) (left (start side p) program) := by
  have fresh : Sided side (start side p) := by simp [Sided, start]
  have inside : (start side p).held? = some p := by simp [start, Slot.payload?]
  have ending := left_sided fresh program
  constructor
  case shown => exact runAll_eq _ _
  case sided => exact fun t member => (turns_fair fresh member).2
  case fate => simpa [inside] using left_balanced fresh program
  case final =>
    intro early t late split spends t' member
    obtain ⟨before, step, after, -, -, rfl, rfl⟩ := turns_split split
    have so_far := left_sided fresh before
    have fair := turn_fair so_far step
    have later := turn_sided so_far step
    obtain ⟨empty, idle, ungained⟩ := turns_idle later (fair.empties spends) member
    refine ⟨idle, ungained, fun disposes there => ?_⟩
    simpa [empty, Ending.toExcept, Answer.ofResult] using ((turns_fair later member).1.disposed disposes there).2
  case same =>
    intro early t late split q here
    obtain ⟨before, step, after, -, rfl, rfl, -⟩ := turns_split split
    have held : (left (start side p) before).held? = some q :=
      here.elim id (turn_fair (left_sided fresh before) step).gained
    obtain ⟨p', same, rfl⟩ := left_kept fresh held
    obtain rfl := Option.some.inj (inside.symm.trans same)
    rfl
  case kept =>
    intro t member unspent
    have fair := (turns_fair fresh member).1
    have balanced := fair.balanced
    obtain ⟨ungained, uncleared⟩ := (Bool.or_eq_false_iff).mp unspent
    rw [ungained, uncleared] at balanced
    cases held : t.after.held? with
    | none =>
      have none : t.before.held? = none := by simpa [held] using balanced.symm
      rw [none, Option.map_none]
    | some q =>
      obtain ⟨p', here, rfl⟩ := fair.kept held
      rw [here, Option.map_some]
  case attempted =>
    intro t member q held disposes
    have fair := (turns_fair fresh member).1
    have there : t.before.outcome.isSome = true := by
      obtain ⟨o, there, -⟩ := Option.bind_eq_some_iff.mp held
      rw [there, Option.isSome_some]
    obtain ⟨released, answered⟩ := fair.disposed disposes there
    simp only [held, Option.toList_some, List.map_cons, List.map_nil, Option.map_some, Option.getD_some] at released answered
    refine ⟨released, answered, ?_⟩
    simp only [Turn.spends, Turn.clears, Turn.isOk, fair.ungained disposes, released, answered]
    cases q.ending <;> simp [Ending.toExcept, Answer.ofResult]
  case mistaken => exact fun t member => (turns_fair fresh member).1.mistaken
  case observed => exact fun t member => (turns_fair fresh member).1.observed
  case retrievable =>
    intro o q here held
    obtain ⟨slot, same⟩ := o.eq_onSide
    rw [ending o here] at same
    subst same
    rw [Outcome.held?_onSide] at held
    exact ⟨(gain?_takeOn slot rfl).trans held, (gain?_toResult side slot).trans held⟩
  case matched =>
    intro o here ρ f g
    obtain ⟨slot, same⟩ := o.eq_onSide
    rw [ending o here] at same
    subst same
    rw [Outcome.matchWith_onSide, Outcome.held?_onSide]
    cases slot <;> rfl
  case deferred =>
    intro o here stack
    have disposed := Scope.dispose_open (.leaf (.outcome o) :: stack)
    rw [ScopeEntry.traceOf_cons, ScopeEntry.trace, ScopeEntry.due, List.flatMap_singleton] at disposed
    exact (ScopeStep.defer_open stack _).bind disposed

end OutcomeStep

end ScriptHost
