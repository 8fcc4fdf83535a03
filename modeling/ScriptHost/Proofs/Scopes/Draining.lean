import ScriptHost.Bench.Scope

set_option autoImplicit false

/-!
What draining a scope releases and what it reports.

The resources that an entry has due are the leaves of its tree that no disposed scope closes off. Draining
releases each of them once, newest first, whatever fails on the way, and sums the results of the scope's
own entries up to the first failure and their number. A scope that was drained has nothing due.
-/

namespace ScriptHost

/-- The action returns `result` and logs `events`, the oldest first, whatever was logged before. -/
def ReleaseLog.Yields {α : Type} (act : ReleaseLog α) (result : α) (events : List ReleaseEvent) : Prop :=
  ∀ log, act.run log = (result, events.reverse ++ log)

namespace ReleaseLog.Yields

variable {α β : Type}

theorem pure (a : α) : Yields (Pure.pure a) a [] :=
  fun _ => rfl

theorem write (e : ReleaseEvent) : Yields (ReleaseLog.write e) () [e] :=
  fun _ => rfl

theorem bind {act : ReleaseLog α} {next : α -> ReleaseLog β} {a : α} {b : β} {first second : List ReleaseEvent}
    (acted : Yields act a first) (went : Yields (next a) b second) :
    Yields (act >>= next) b (first ++ second) := by
  intro log
  have acted := acted log
  have went := went (first.reverse ++ log)
  simp only [StateT.run_bind, acted, List.reverse_append, List.append_assoc]
  exact went

/-- An action that ends by returning what it makes of the result before. -/
theorem thenPure {act : ReleaseLog α} {a : α} {events : List ReleaseEvent} (f : α -> β) (acted : Yields act a events) :
    Yields (act >>= fun a => Pure.pure (f a)) (f a) events := by
  have went : Yields (act >>= fun a => Pure.pure (f a)) (f a) (events ++ []) := bind acted (pure _)
  simpa only [List.append_nil] using went

end ReleaseLog.Yields

/-- What an outcome still owns. -/
def Outcome.held? (o : Outcome Probe Probe) : Option Probe :=
  o.success? <|> o.failure?

namespace Probe

def ending (p : Probe) : Ending :=
  p.script.headD .done

def spent (p : Probe) : Probe :=
  { p with script := p.script.tail }

theorem release_yields (p : Probe) :
    (Resource.release p : ReleaseLog _).Yields (p.ending, p.spent) [.released p.name] := by
  obtain ⟨name, script⟩ := p
  cases script <;> exact fun _ => rfl

end Probe

namespace Probed

def ending : Probed -> Ending
  | .probe p => p.ending
  | .outcome o => (o.held?.map Probe.ending).getD .done
  | .action _ ending => ending

/-- What one release of the resource logs. -/
def trace : Probed -> List ReleaseEvent
  | .probe p => [.released p.name]
  | .outcome o => o.held?.toList.map fun p => .released p.name
  | .action name _ => [.ran name]

theorem discard_yields (r : Probed) : (Resource.discard r : ReleaseLog Unit).Yields () [] := by
  rcases r with p | (slot | slot) | ⟨name, ending⟩
  · exact .pure ()
  · cases slot <;> exact .pure ()
  · cases slot <;> exact .pure ()
  · exact .pure ()

theorem slot_release_yields (slot : Slot Probe) :
    ∃ kept, (slot.release : ReleaseLog _).Yields ((slot.payload?.map Probe.ending).getD .done, kept)
      (slot.payload?.toList.map fun p => .released p.name) := by
  cases slot with
  | transferred => exact ⟨_, .pure _⟩
  | live p => exact ⟨_, p.release_yields.bind (.pure _)⟩

theorem release_yields (r : Probed) :
    ∃ kept, (Resource.release r : ReleaseLog _).Yields (r.ending, kept) r.trace := by
  rcases r with p | (slot | slot) | ⟨name, ending⟩
  · exact ⟨_, p.release_yields.bind (.pure _)⟩
  · obtain ⟨kept, released⟩ := slot_release_yields slot
    have held : (Outcome.success slot : Outcome Probe Probe).held? = slot.payload? := by cases slot <;> rfl
    simp only [Probed.ending, trace, held]
    exact ⟨.outcome (.success kept), ReleaseLog.Yields.thenPure _ (ReleaseLog.Yields.thenPure _ released)⟩
  · obtain ⟨kept, released⟩ := slot_release_yields slot
    have held : (Outcome.failure slot : Outcome Probe Probe).held? = slot.payload? := by cases slot <;> rfl
    simp only [Probed.ending, trace, held]
    exact ⟨.outcome (.failure kept), ReleaseLog.Yields.thenPure _ (ReleaseLog.Yields.thenPure _ released)⟩
  · exact ⟨_, (ReleaseLog.Yields.write _).bind (.pure _)⟩

end Probed

namespace ScopeEntry

mutual

/-- The resources that releasing an entry releases, in this order. -/
def due {ρ : Type} : ScopeEntry ρ -> List ρ
  | leaf resource => [resource]
  | scope disposed stack => if disposed then [] else dueOf stack

def dueOf {ρ : Type} : List (ScopeEntry ρ) -> List ρ
  | [] => []
  | entry :: rest => due entry ++ dueOf rest

end

mutual

def result : ScopeEntry Probed -> Except Error Unit
  | leaf resource => resource.ending.toExcept
  | scope disposed stack => if disposed then .error Scope.closedError else Scope.verdict (failuresIn stack)

def failuresIn : List (ScopeEntry Probed) -> List Error
  | [] => []
  | entry :: rest => Scope.failuresOf (result entry) ++ failuresIn rest

end

/-- What releasing the entry logs. -/
def trace (entry : ScopeEntry Probed) : List ReleaseEvent :=
  entry.due.flatMap Probed.trace

def traceOf (stack : List (ScopeEntry Probed)) : List ReleaseEvent :=
  (dueOf stack).flatMap Probed.trace

theorem traceOf_cons (entry : ScopeEntry Probed) (rest : List (ScopeEntry Probed)) :
    traceOf (entry :: rest) = entry.trace ++ traceOf rest := by
  simp [traceOf, dueOf, trace]

theorem traceOf_eq (stack : List (ScopeEntry Probed)) : traceOf stack = stack.flatMap trace := by
  induction stack with
  | nil => rfl
  | cons entry rest ih => simp [traceOf_cons, ih]

theorem dueOf_eq {ρ : Type} (stack : List (ScopeEntry ρ)) : dueOf stack = stack.flatMap due := by
  induction stack with
  | nil => rfl
  | cons entry rest ih => simp [dueOf, ih]

theorem failuresIn_eq (stack : List (ScopeEntry Probed)) :
    failuresIn stack = (stack.map result).flatMap Scope.failuresOf := by
  induction stack with
  | nil => rfl
  | cons entry rest ih => simp [failuresIn, ih]

end ScopeEntry

namespace Scope

open ReleaseLog (Yields)

/-- `answer` sums up the results of a scope's own entries, given in the order of the releases. -/
structure SumsUp (results : List (Except Error Unit)) (answer : Except Error Unit) : Prop where
  well : (∀ r ∈ results, r = .ok ()) -> answer = .ok ()
  failed : ∀ before first after, results = before ++ .error first :: after -> (∀ r ∈ before, r = .ok ()) ->
    answer = .error (.disposal (results.countP (!·.isOk)) first)

theorem failuresOf_eq_nil {results : List (Except Error Unit)} (well : ∀ r ∈ results, r = .ok ()) :
    results.flatMap failuresOf = [] := by
  simp only [List.flatMap_eq_nil_iff]
  intro r member
  rw [well r member, failuresOf]

theorem length_failuresOf (results : List (Except Error Unit)) :
    (results.flatMap failuresOf).length = results.countP (!·.isOk) := by
  induction results with
  | nil => rfl
  | cons r rest ih => cases r <;> simp [failuresOf, Except.isOk, Except.toBool, ih, Nat.add_comm]

theorem verdict_sumsUp (results : List (Except Error Unit)) :
    SumsUp results (verdict (results.flatMap failuresOf)) where
  well all := by rw [failuresOf_eq_nil all, verdict]
  failed before first after split good := by
    rw [<- length_failuresOf, split]
    simp [failuresOf_eq_nil good, failuresOf, verdict]

mutual

theorem releaseEntry_yields :
    ∀ entry : ScopeEntry Probed, Yields (releaseEntry entry) entry.result entry.trace
  | .leaf r => by
      obtain ⟨kept, released⟩ := r.release_yields
      have trace : (ScopeEntry.leaf r).trace = r.trace ++ [] := by
        simp only [ScopeEntry.trace, ScopeEntry.due, List.flatMap_singleton, List.append_nil]
      rw [trace]
      exact Yields.bind released (kept.discard_yields.thenPure _)
  | .scope true stack => .pure _
  | .scope false stack => (releaseStack_yields stack).thenPure verdict

theorem releaseStack_yields :
    ∀ stack : List (ScopeEntry Probed),
      Yields (releaseStack stack) (ScopeEntry.failuresIn stack) (ScopeEntry.traceOf stack)
  | [] => .pure []
  | entry :: rest => by
      rw [ScopeEntry.traceOf_cons]
      exact (releaseEntry_yields entry).bind ((releaseStack_yields rest).thenPure _)

end

def closed : Scope Probed :=
  ⟨true, []⟩

/-- A scope that was disposed holds nothing any more. -/
def Tidy (s : Scope Probed) : Prop :=
  s.disposed = true -> s = closed

/-- The result of disposing the scope. -/
def report (s : Scope Probed) : Except Error Unit :=
  if s.disposed then .ok () else verdict (ScopeEntry.failuresIn s.stack)

theorem dispose_open (stack : List (ScopeEntry Probed)) :
    Yields (dispose ⟨false, stack⟩) (verdict (ScopeEntry.failuresIn stack), closed) (ScopeEntry.traceOf stack) :=
  (releaseStack_yields stack).thenPure fun failures => (verdict failures, closed)

theorem dispose_yields {s : Scope Probed} (tidy : s.Tidy) : Yields s.dispose (s.report, closed) s.toEntry.trace := by
  obtain ⟨_ | _, stack⟩ := s
  · exact dispose_open stack
  · obtain rfl : stack = [] := congrArg Scope.stack (tidy rfl)
    exact .pure _

theorem release_yields {s : Scope Probed} (tidy : s.Tidy) : Yields s.release (s.toEntry.result, closed) s.toEntry.trace := by
  obtain ⟨_ | _, stack⟩ := s
  · exact dispose_open stack
  · obtain rfl : stack = [] := congrArg Scope.stack (tidy rfl)
    exact .pure _

theorem discard_yields : ∀ s : Scope Probed, Yields s.discard () s.toEntry.trace
  | ⟨true, _⟩ => .pure ()
  | ⟨false, stack⟩ => (dispose_open stack).thenPure fun _ => ()

theorem result_sumsUp (stack : List (ScopeEntry Probed)) :
    SumsUp (stack.map ScopeEntry.result) (ScopeEntry.scope false stack).result := by
  have summed := verdict_sumsUp (stack.map ScopeEntry.result)
  rwa [<- ScopeEntry.failuresIn_eq] at summed

theorem report_sumsUp {s : Scope Probed} (tidy : s.Tidy) : SumsUp (s.stack.map ScopeEntry.result) s.report := by
  obtain ⟨_ | _, stack⟩ := s
  · exact result_sumsUp stack
  · obtain rfl : stack = [] := congrArg Scope.stack (tidy rfl)
    exact verdict_sumsUp []

end Scope

end ScriptHost
