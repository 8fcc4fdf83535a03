import Mathlib.Data.List.Perm.Basic
import ScriptHost.Proofs.Scopes.Draining

set_option autoImplicit false

/-!
Programs over scopes: what they register, what is released, and when.

Until a step closes its scope, the scope holds what the steps registered, the newest on top; from then on
it is empty and takes in nothing. Everything that was taken in, by the scope itself or by one inside it, is
released once by a disposal or still due.
-/

namespace ScriptHost.ScopeStep

open ReleaseLog (Yields)

/-- The step closes the scope that it works on. -/
def closes : ScopeStep -> Bool
  | dispose | release => true
  | _ => false

mutual

/-- What a step registers in an open scope. -/
def addition? : ScopeStep -> Option (ScopeEntry Probed)
  | action name ending => some (.leaf (.action name ending))
  | probe p early => some (.leaf (.probe (if early then p.spent else p)))
  | outcome success p => some (.leaf (.outcome (if success then .success (.live p) else .failure (.live p))))
  | child before after =>
      let closed := before.any closes || after.any closes
      some (.scope closed (if closed then [] else (entries after).reverse ++ (entries before).reverse))
  | _ => none

/-- What steps register in a scope that stays open, the oldest first. -/
def entries : List ScopeStep -> List (ScopeEntry Probed)
  | [] => []
  | first :: rest => (addition? first).toList ++ entries rest

end

/-- The scope that steps leave of `s`. -/
def left (s : ProbeScope) (program : List ScopeStep) : ProbeScope :=
  let closed := s.disposed || program.any closes
  ⟨closed, if closed then [] else (entries program).reverse ++ s.stack⟩

mutual

/-- What a step has released in all, at once or by the entry that it registers. -/
def charges (closed : Bool) : ScopeStep -> List ReleaseEvent
  | action name _ => if closed then [] else [.ran name]
  | probe p early => if closed then [] else (if early then [.released p.name] else []) ++ [.released p.name]
  | outcome _ p => if closed then [] else [.released p.name]
  | child before after => chargesOf false before ++ if closed then [] else chargesOf (before.any closes) after
  | dropped inside | run inside _ => chargesOf false inside
  | dispose | release | info => []

def chargesOf (closed : Bool) : List ScopeStep -> List ReleaseEvent
  | [] => []
  | first :: rest => charges closed first ++ chargesOf (closed || closes first) rest

end

/-- The events and what is due afterwards are what was due before and what was charged. -/
def Balanced (s s' : ProbeScope) (charged events : List ReleaseEvent) : Prop :=
  (events ++ s'.toEntry.trace).Perm (s.toEntry.trace ++ charged)

/-- The answer to a step whose entry a closed scope refuses. -/
def Refused (answer : Answer) : Prop :=
  answer = .failure Scope.closedError ∨ ∃ filled, answer = .list [.list filled, .failure Scope.closedError]

theorem Balanced.trans {s s' s'' : ProbeScope} {first second early late : List ReleaseEvent}
    (one : Balanced s s' first early) (two : Balanced s' s'' second late) :
    Balanced s s'' (first ++ second) (early ++ late) := by
  have moved : (early ++ (late ++ s''.toEntry.trace)).Perm (early ++ (s'.toEntry.trace ++ second)) := two.append_left early
  have paid : ((early ++ s'.toEntry.trace) ++ second).Perm ((s.toEntry.trace ++ first) ++ second) := one.append_right second
  simp only [Balanced, List.append_assoc] at *
  exact moved.trans paid

theorem balanced_registered (stack : List (ScopeEntry Probed)) (entry : ScopeEntry Probed) (early : List ReleaseEvent) :
    Balanced ⟨false, stack⟩ ⟨false, entry :: stack⟩ (early ++ entry.trace) early := by
  have stacked : (Scope.toEntry ⟨false, entry :: stack⟩).trace = entry.trace ++ (Scope.toEntry ⟨false, stack⟩).trace :=
    ScopeEntry.traceOf_cons entry stack
  simp only [Balanced, stacked]
  rw [<- List.append_assoc]
  exact List.perm_append_comm

/-- What a scope of its own has released, and has due, is charged to whatever holds it. -/
theorem Balanced.nested {inner s : ProbeScope} {charged events : List ReleaseEvent}
    (filled : Balanced Scope.empty inner charged events) : Balanced s s charged (events ++ inner.toEntry.trace) :=
  (List.Perm.append_right _ filled).trans List.perm_append_comm

theorem Balanced.holding {inner : ProbeScope} {charged events : List ReleaseEvent} (stack : List (ScopeEntry Probed))
    (filled : Balanced Scope.empty inner charged events) :
    Balanced ⟨false, stack⟩ ⟨false, inner.toEntry :: stack⟩ charged events := by
  have nested : Balanced ⟨false, stack⟩ ⟨false, stack⟩ charged (events ++ inner.toEntry.trace) := filled.nested
  have stacked : (Scope.toEntry ⟨false, inner.toEntry :: stack⟩).trace =
      inner.toEntry.trace ++ (Scope.toEntry ⟨false, stack⟩).trace := ScopeEntry.traceOf_cons _ stack
  simpa only [Balanced, stacked, List.append_assoc] using nested

theorem empty_tidy : (Scope.empty : ProbeScope).Tidy :=
  nofun

theorem left_tidy (s : ProbeScope) (program : List ScopeStep) : (left s program).Tidy := by
  intro closed
  simp only [left] at closed ⊢
  simp only [closed, if_true, Scope.closed]

theorem left_nil {s : ProbeScope} (tidy : s.Tidy) : left s [] = s := by
  obtain ⟨_ | _, stack⟩ := s
  · simp [left, entries]
  · exact (tidy rfl).symm

theorem left_cons (s : ProbeScope) (first : ScopeStep) (rest : List ScopeStep) :
    left s (first :: rest) = left (left s [first]) rest := by
  obtain ⟨disposed, stack⟩ := s
  cases disposed <;> cases hc : closes first <;> cases hr : rest.any closes <;>
    simp [left, entries, hc, hr]

theorem left_of_none {s : ProbeScope} (tidy : s.Tidy) {first : ScopeStep} (unregistered : addition? first = none)
    (stays : closes first = false) : left s [first] = s := by
  obtain ⟨_ | _, stack⟩ := s
  · simp [left, entries, unregistered, stays]
  · exact (tidy rfl).symm

theorem left_of_closes (s : ProbeScope) {first : ScopeStep} (closing : closes first = true) :
    left s [first] = Scope.closed := by
  simp [left, closing, Scope.closed]

theorem left_disposed (s : ProbeScope) (program : List ScopeStep) :
    (left s program).disposed = (s.disposed || program.any closes) :=
  rfl

/-- What a step of a program does to a scope, in any log. -/
def Settles (s : ProbeScope) (first : ScopeStep) : Prop :=
  ∃ answer events, Yields (step s first) (answer, left s [first]) events ∧
    Balanced s (left s [first]) (charges s.disposed first) events ∧
    (s.disposed = true -> (addition? first).isSome -> Refused answer)

theorem Settles.of_left {s s' : ProbeScope} {first : ScopeStep} {answer : Answer} {events : List ReleaseEvent}
    (reached : left s [first] = s') (ran : Yields (step s first) (answer, s') events)
    (balanced : Balanced s s' (charges s.disposed first) events)
    (refuses : s.disposed = true -> (addition? first).isSome -> Refused answer) : Settles s first := by
  subst reached
  exact ⟨answer, events, ran, balanced, refuses⟩

def SettlesAll (s : ProbeScope) (program : List ScopeStep) : Prop :=
  ∃ answers events, Yields (steps s program) (answers, left s program) events ∧
    Balanced s (left s program) (chargesOf s.disposed program) events

theorem defer_open (stack : List (ScopeEntry Probed)) (entry : ScopeEntry Probed) :
    Yields (Scope.defer ⟨false, stack⟩ entry) (.ok (), ⟨false, entry :: stack⟩) [] :=
  .pure _

/-- A resource that comes too late goes out of use unreleased. -/
theorem defer_late (r : Probed) :
    Yields (Scope.closed.defer (.leaf r)) (.error Scope.closedError, Scope.closed) [] :=
  r.discard_yields.thenPure _

/-- A scope that comes too late is drained. -/
theorem defer_late_scope (inner : ProbeScope) :
    Yields (Scope.closed.defer inner.toEntry) (.error Scope.closedError, Scope.closed) inner.toEntry.trace :=
  inner.discard_yields.thenPure _

theorem action_settles {s : ProbeScope} (tidy : s.Tidy) (name : String) (ending : Ending) :
    Settles s (action name ending) := by
  obtain ⟨_ | _, stack⟩ := s
  · have balanced := balanced_registered stack (.leaf (.action name ending)) []
    exact ⟨_, _, (defer_open stack _).thenPure answerOf, balanced, nofun⟩
  · obtain rfl : stack = [] := congrArg Scope.stack (tidy rfl)
    exact ⟨_, _, (defer_late _).thenPure answerOf, .refl _, fun _ _ => .inl rfl⟩

theorem outcome_settles {s : ProbeScope} (tidy : s.Tidy) (success : Bool) (p : Probe) :
    Settles s (outcome success p) := by
  obtain ⟨_ | _, stack⟩ := s
  · have balanced := balanced_registered stack (.leaf (.outcome (if success then .success (.live p) else .failure (.live p)))) []
    refine ⟨_, _, (defer_open stack _).bind (.pure _), ?_, nofun⟩
    cases success <;> exact balanced
  · obtain rfl : stack = [] := congrArg Scope.stack (tidy rfl)
    exact ⟨_, _, (defer_late _).bind (.pure _), .refl _, fun _ _ => .inl rfl⟩

theorem probe_settles {s : ProbeScope} (tidy : s.Tidy) (p : Probe) (early : Bool) :
    Settles s (probe p early) := by
  obtain ⟨_ | _, stack⟩ := s
  · cases early with
    | false =>
        have balanced := balanced_registered stack (.leaf (.probe p)) []
        exact ⟨_, _, (defer_open stack _).bind (.pure _), balanced, nofun⟩
    | true =>
        have balanced := balanced_registered stack (.leaf (.probe p.spent)) [.released p.name]
        exact ⟨_, _, (defer_open stack _).bind (p.release_yields.thenPure _), balanced, nofun⟩
  · obtain rfl : stack = [] := congrArg Scope.stack (tidy rfl)
    exact ⟨_, _, (defer_late _).bind (.pure _), .refl _, fun _ _ => .inl rfl⟩

theorem addition?_child (before after : List ScopeStep) :
    addition? (child before after) = some (left (left Scope.empty before) after).toEntry := by
  cases first : before.any closes <;> cases second : after.any closes <;>
    simp [addition?, left, Scope.empty, Scope.toEntry, first, second]

theorem child_settles {s : ProbeScope} (tidy : s.Tidy) {before after : List ScopeStep}
    (filled : SettlesAll Scope.empty before) (refilled : SettlesAll (left Scope.empty before) after) :
    Settles s (child before after) := by
  obtain ⟨first, early, ran, balanced⟩ := filled
  obtain ⟨_ | _, stack⟩ := s
  · obtain ⟨second, late, ranOn, balancedOn⟩ := refilled
    have registered : left ⟨false, stack⟩ [child before after] =
        ⟨false, (left (left Scope.empty before) after).toEntry :: stack⟩ := by
      simp [left, entries, addition?_child, closes]
    have stepped : Yields (step ⟨false, stack⟩ (child before after))
        (.list [.list first, .list second], ⟨false, (left (left Scope.empty before) after).toEntry :: stack⟩)
        (early ++ ([] ++ late)) :=
      ran.bind (.bind (defer_open stack _) (ranOn.thenPure _))
    exact .of_left registered stepped (balanced.trans balancedOn |>.holding stack) nofun
  · obtain rfl : stack = [] := congrArg Scope.stack (tidy rfl)
    have stepped : Yields (step Scope.closed (child before after))
        (.list [.list first, .failure Scope.closedError], Scope.closed)
        (early ++ ((left Scope.empty before).toEntry.trace ++ [])) :=
      ran.bind (.bind (defer_late_scope _) (.pure _))
    have charged : charges true (child before after) = chargesOf false before := by simp [charges]
    rw [List.append_nil] at stepped
    exact .of_left rfl stepped (charged ▸ balanced.nested) fun _ _ => .inr ⟨first, rfl⟩

theorem dropped_settles {s : ProbeScope} (tidy : s.Tidy) {inside : List ScopeStep}
    (filled : SettlesAll Scope.empty inside) : Settles s (dropped inside) := by
  obtain ⟨answers, events, ran, balanced⟩ := filled
  have stepped : Yields (step s (dropped inside)) (.list answers, s)
      (events ++ (left Scope.empty inside).toEntry.trace) :=
    ran.bind ((left Scope.empty inside).discard_yields.thenPure _)
  exact .of_left (left_of_none tidy rfl rfl) stepped balanced.nested nofun

theorem run_yields {inside : List ScopeStep} {answers : List Answer} {events : List ReleaseEvent}
    (ran : Yields (steps Scope.empty inside) (answers, left Scope.empty inside) events) (s : ProbeScope) (ending : Ending) :
    Yields (step s (run inside ending))
      (.list [.list answers, match Scope.settle ending.toExcept (left Scope.empty inside).report with
        | .ok () => .text "value"
        | .error e => .failure e], s)
      (events ++ (left Scope.empty inside).toEntry.trace) :=
  ran.bind ((Scope.dispose_yields (left_tidy Scope.empty inside)).thenPure _)

theorem run_settles {s : ProbeScope} (tidy : s.Tidy) {inside : List ScopeStep} (ending : Ending)
    (filled : SettlesAll Scope.empty inside) : Settles s (run inside ending) := by
  obtain ⟨answers, events, ran, balanced⟩ := filled
  exact .of_left (left_of_none tidy rfl rfl) (run_yields ran s ending) balanced.nested nofun

theorem dispose_settles {s : ProbeScope} (tidy : s.Tidy) : Settles s dispose :=
  .of_left (left_of_closes s rfl) ((Scope.dispose_yields tidy).thenPure answerOf) (.refl _) nofun

theorem release_settles {s : ProbeScope} (tidy : s.Tidy) : Settles s release :=
  .of_left (left_of_closes s rfl) ((Scope.release_yields tidy).thenPure answerOf) (.refl _) nofun

theorem info_settles {s : ProbeScope} (tidy : s.Tidy) : Settles s info := by
  have balanced : Balanced s s [] [] := by simp [Balanced]
  exact .of_left (left_of_none tidy rfl rfl) (.pure _) balanced nofun

mutual

theorem settles : ∀ (first : ScopeStep) {s : ProbeScope}, s.Tidy -> Settles s first
  | action name ending, _, tidy => action_settles tidy name ending
  | probe p early, _, tidy => probe_settles tidy p early
  | outcome success p, _, tidy => outcome_settles tidy success p
  | child before after, _, tidy =>
      child_settles tidy (settlesAll before empty_tidy) (settlesAll after (left_tidy _ before))
  | dropped inside, _, tidy => dropped_settles tidy (settlesAll inside empty_tidy)
  | run inside ending, _, tidy => run_settles tidy ending (settlesAll inside empty_tidy)
  | dispose, _, tidy => dispose_settles tidy
  | release, _, tidy => release_settles tidy
  | info, _, tidy => info_settles tidy

theorem settlesAll : ∀ (program : List ScopeStep) {s : ProbeScope}, s.Tidy -> SettlesAll s program
  | [], s, tidy => by
      have balanced : Balanced s s [] [] := by simp [Balanced]
      rw [SettlesAll, left_nil tidy]
      exact ⟨_, _, .pure _, balanced⟩
  | first :: rest, s, tidy => by
      obtain ⟨answer, early, ran, balanced, -⟩ := settles first tidy
      obtain ⟨answers, late, ranOn, balancedOn⟩ := settlesAll rest (left_tidy s [first])
      rw [SettlesAll, left_cons s first rest]
      refine ⟨_, _, ran.bind (ranOn.thenPure _), ?_⟩
      simpa [left_disposed, chargesOf] using balanced.trans balancedOn

end

/-- The answers of a program with all that it logs, the events of dropping the scope in the end included. -/
theorem runAll_balanced (program : List ScopeStep) {s : ProbeScope} (tidy : s.Tidy) :
    ((runAll s program).1.flatMap (·.2) ++ (runAll s program).2).Perm (s.toEntry.trace ++ chargesOf s.disposed program) := by
  induction program generalizing s with
  | nil =>
      have discarded := s.discard_yields []
      simp [runAll, chargesOf, discarded]
  | cons first rest ih =>
      obtain ⟨answer, events, ran, balanced, -⟩ := settles first tidy
      have went := ih (left_tidy s [first])
      have logged := ran []
      simp only [runAll, logged, List.flatMap_cons, List.append_nil, List.reverse_reverse, chargesOf, List.append_assoc]
      simp only [left_disposed, List.any_cons, List.any_nil, Bool.or_false] at went
      have paid := (went.append_left events).trans (by simpa only [<- List.append_assoc] using balanced.append_right _)
      simpa only [List.append_assoc] using paid

/-- A resource whose release logs one event. -/
def Logs (r : Probed) : Prop :=
  ∃ e, r.trace = [e]

mutual

theorem addition_logs : ∀ (first : ScopeStep) {entry : ScopeEntry Probed}, addition? first = some entry ->
    ∀ r ∈ entry.due, Logs r
  | action name _, _, registered, r, member => by
      cases registered
      cases List.mem_singleton.mp member
      exact ⟨_, rfl⟩
  | probe p early, _, registered, r, member => by
      cases registered
      cases List.mem_singleton.mp member
      exact ⟨_, rfl⟩
  | outcome success p, _, registered, r, member => by
      cases registered
      cases List.mem_singleton.mp member
      cases success <;> exact ⟨_, rfl⟩
  | child before after, _, registered, r, member => by
      simp only [addition?, Option.some.injEq] at registered
      subst registered
      simp only [ScopeEntry.due] at member
      split at member
      · cases member
      · next still =>
          rw [ScopeEntry.dueOf_eq, List.mem_flatMap] at member
          obtain ⟨entry, held, member⟩ := member
          rcases List.mem_append.mp held with held | held
          · exact entries_log after entry (List.mem_reverse.mp held) r member
          · exact entries_log before entry (List.mem_reverse.mp held) r member
  | dropped _, _, registered, _, _ | run _ _, _, registered, _, _ | dispose, _, registered, _, _
  | release, _, registered, _, _ | info, _, registered, _, _ => nomatch registered

theorem entries_log : ∀ (program : List ScopeStep), ∀ entry ∈ entries program, ∀ r ∈ entry.due, Logs r
  | [], _, held, _, _ => nomatch held
  | first :: rest, entry, held, r, member => by
      rcases List.mem_append.mp held with held | held
      · exact addition_logs first (Option.mem_toList.mp held) r member
      · exact entries_log rest entry held r member

end

theorem left_of_open {program : List ScopeStep} (staying : program.any closes = false) :
    left Scope.empty program = ⟨false, (entries program).reverse⟩ := by
  simp [left, staying, Scope.empty]

theorem left_of_closed {program : List ScopeStep} (closing : program.any closes = true) :
    left Scope.empty program = Scope.closed := by
  simp [left, closing, Scope.closed]

theorem left_logs (program : List ScopeStep) : ∀ r ∈ (left Scope.empty program).toEntry.due, Logs r := by
  intro r member
  cases closing : program.any closes with
  | true =>
      rw [left_of_closed closing] at member
      cases member
  | false =>
      have stacked : (left Scope.empty program).toEntry.due = (entries program).reverse.flatMap ScopeEntry.due := by
        rw [left_of_open closing, <- ScopeEntry.dueOf_eq]
        rfl
      rw [stacked, List.mem_flatMap] at member
      obtain ⟨entry, held, member⟩ := member
      exact entries_log program entry (List.mem_reverse.mp held) r member

theorem left_order {program : List ScopeStep} (staying : program.any closes = false) :
    (left Scope.empty program).toEntry.trace = (entries program).reverse.flatMap ScopeEntry.trace := by
  rw [left_of_open staying, <- ScopeEntry.traceOf_eq]
  rfl

/-- The answer of a run shows the error of its body, else the one of the disposal. -/
structure Prefers (body report : Except Error Unit) (shown : Answer) : Prop where
  failed : ∀ e, body = .error e -> shown = .failure e
  undisposed : ∀ e, body = .ok () -> report = .error e -> shown = .failure e
  returned : body = .ok () -> report = .ok () -> shown = .text "value"

theorem settle_prefers (body report : Except Error Unit) :
    Prefers body report (match Scope.settle body report with
      | .ok () => .text "value"
      | .error e => .failure e) where
  failed e failed := by
    subst failed
    rfl
  undisposed e returned failed := by
    subst returned failed
    rfl
  returned well disposed := by
    subst well disposed
    rfl

/-- The scope `s` that a program fills is drained once and for good. -/
structure DrainsOnce (program : List ScopeStep) (s : ProbeScope) : Prop where
  -- What the program logs and what is then due is one release for everything that was taken in.
  filled : ∃ answers events, Yields (steps Scope.empty program) (answers, s) events ∧
    (events ++ s.toEntry.trace).Perm (chargesOf false program) ∧
    ∀ outer ending, ∃ shown, Prefers ending.toExcept s.report shown ∧
      Yields (step outer (run program ending)) (.list [.list answers, shown], outer) (events ++ s.toEntry.trace)
  order : program.any closes = false -> s = ⟨false, (entries program).reverse⟩ ∧
    s.toEntry.trace = (entries program).reverse.flatMap ScopeEntry.trace
  once : ∀ r ∈ s.toEntry.due, Logs r
  summed : Scope.SumsUp (s.stack.map ScopeEntry.result) s.report
  nested : ∀ stack, Scope.SumsUp (stack.map ScopeEntry.result) (ScopeEntry.scope false stack).result
  disposed : Yields s.dispose (s.report, Scope.closed) s.toEntry.trace
  released : Yields s.release (s.toEntry.result, Scope.closed) s.toEntry.trace
  dropped : Yields s.discard () s.toEntry.trace
  closed : program.any closes = true -> s = Scope.closed
  again : Yields Scope.closed.dispose (.ok (), Scope.closed) [] ∧ Yields Scope.closed.discard () []
  refused : ∀ late, ∃ answer events, Yields (step Scope.closed late) (answer, Scope.closed) events ∧
    ((addition? late).isSome -> Refused answer)
  whole : ((runAll Scope.empty program).1.flatMap (·.2) ++ (runAll Scope.empty program).2).Perm (chargesOf false program)

theorem left_drainsOnce (program : List ScopeStep) : DrainsOnce program (left Scope.empty program) := by
  have tidy : (left Scope.empty program).Tidy := left_tidy _ program
  obtain ⟨answers, events, ran, balanced⟩ := settlesAll program empty_tidy
  have shut : Scope.closed.Tidy := fun _ => rfl
  exact
    { filled := ⟨answers, events, ran, balanced, fun outer ending => ⟨_, settle_prefers _ _, run_yields ran outer ending⟩⟩
      order := fun staying => ⟨left_of_open staying, left_order staying⟩
      once := left_logs program
      summed := Scope.report_sumsUp tidy
      nested := Scope.result_sumsUp
      disposed := Scope.dispose_yields tidy
      released := Scope.release_yields tidy
      dropped := Scope.discard_yields _
      closed := left_of_closed
      again := ⟨Scope.dispose_yields shut, Scope.discard_yields _⟩
      refused := by
        intro late
        obtain ⟨answer, logged, ran, -, refuses⟩ := settles late shut
        have stays : left Scope.closed [late] = Scope.closed := rfl
        exact ⟨answer, logged, stays ▸ ran, refuses rfl⟩
      whole := runAll_balanced program empty_tidy }

end ScriptHost.ScopeStep
