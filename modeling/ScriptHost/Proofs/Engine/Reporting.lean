import ScriptHost.Proofs.Engine.Chronicle
import ScriptHost.Proofs.Engine.Settlements

set_option autoImplicit false

/-!
What a run of the engine reports of one promise.

Reported is a rejection that came before any reaction, and after it the first reaction. This is told of each life of
a promise, from the move that makes it to the one that it does not survive, so that a pointer may well come to name
another promise later. Nothing is asked of the host.
-/

namespace ScriptHost

def Happening.concerning (p : Ptr) (xs : List Happening) : List Happening :=
  xs.filter fun x => decide (x.promise = p)

def Rejection.concerning (p : Ptr) (events : List Rejection) : List Rejection :=
  events.filter fun e => decide (e.promise = p)

/-- The events about a promise by what has happened to it, both oldest first. -/
inductive Reported (p : Ptr) : List Happening -> List Rejection -> Prop where
  -- It was not rejected, or not before it had a reaction.
  | quiet {life : List Happening}
      (attended : ∀ older v newer, life = older ++ .settled p v true :: newer -> .reacted p ∈ older) : Reported p life []
  | unhandled {older newer : List Happening} {v : Ptr} (before : .reacted p ∉ older) (since : .reacted p ∉ newer) :
      Reported p (older ++ .settled p v true :: newer) [⟨p, v, false⟩]
  | handled {older between newer : List Happening} {v : Ptr} (before : .reacted p ∉ older)
      (since : .reacted p ∉ between) :
      Reported p (older ++ .settled p v true :: (between ++ .reacted p :: newer)) [⟨p, v, false⟩, ⟨p, v, true⟩]

theorem concat_split {α : Type} {xs older newer : List α} {x y : α} (same : xs ++ [x] = older ++ y :: newer) :
    (xs = older ∧ x = y) ∨ ∃ newer', xs = older ++ y :: newer' := by
  rcases List.eq_nil_or_concat newer with rfl | ⟨newer', z, rfl⟩
  next =>
    obtain ⟨before, last⟩ := List.append_inj' same rfl
    exact .inl ⟨before, List.head_eq_of_cons_eq last⟩
  next =>
    rw [List.concat_eq_append, ← List.cons_append, ← List.append_assoc] at same
    exact .inr ⟨newer', (List.append_inj' same rfl).1⟩

namespace Reported

variable {p v : Ptr} {life : List Happening} {events : List Rejection} {rejected handled : Bool}

theorem start (p : Ptr) : Reported p [] [] :=
  .quiet fun older v newer same => by cases older <;> cases same

/-- Settling is reported if it is a rejection without any reaction so far. -/
theorem settle (reported : Reported p life events) (pending : ∀ v rejected, .settled p v rejected ∉ life)
    (told : handled = true ↔ .reacted p ∈ life) (v : Ptr) (rejected : Bool) :
    Reported p (life ++ [.settled p v rejected]) (events ++ if rejected && !handled then [⟨p, v, false⟩] else []) := by
  cases reported with
  | unhandled => exact absurd (List.mem_append_right _ List.mem_cons_self) (pending _ true)
  | handled => exact absurd (List.mem_append_right _ List.mem_cons_self) (pending _ true)
  | quiet attended =>
    split
    next fires =>
      simp only [Bool.and_eq_true, Bool.not_eq_true', ← Bool.not_eq_true, told] at fires
      exact fires.1 ▸ .unhandled fires.2 List.not_mem_nil
    next calm =>
      refine .quiet fun older w newer same => ?_
      rcases concat_split same with ⟨rfl, last⟩ | ⟨newer', rfl⟩
      next =>
        cases last
        simpa [told] using calm
      next => exact attended older w newer' rfl

/-- A reaction is not reported if it is not the first one or comes before a rejection. -/
theorem react_again (reported : Reported p life events)
    (calm : .reacted p ∈ life ∨ ∀ v, .settled p v true ∉ life) : Reported p (life ++ [.reacted p]) events := by
  cases reported with
  | quiet attended =>
    refine .quiet fun older w newer same => ?_
    rcases concat_split same with ⟨-, last⟩ | ⟨newer', rfl⟩
    next => cases last
    next => exact attended older w newer' rfl
  | unhandled before since =>
    rcases calm with reacted | never
    next => simp [before, since] at reacted
    next => exact absurd (List.mem_append_right _ List.mem_cons_self) (never _)
  | handled before since =>
    simp only [List.append_assoc, List.cons_append]
    exact .handled before since

/-- The first reaction after a rejection is reported. -/
theorem react_first (reported : Reported p life events) (first : .reacted p ∉ life)
    (told : ∀ w, .settled p w true ∈ life ↔ w = v) : Reported p (life ++ [.reacted p]) (events ++ [⟨p, v, true⟩]) := by
  cases reported with
  | quiet attended =>
    obtain ⟨older, newer, rfl⟩ := List.append_of_mem ((told v).2 rfl)
    exact absurd (List.mem_append_left _ (attended older v newer rfl)) first
  | @unhandled older newer w before since =>
    obtain rfl : w = v := (told w).1 (List.mem_append_right _ List.mem_cons_self)
    rw [List.append_assoc, List.cons_append]
    exact .handled before since
  | handled => simp at first

/-- Nothing, a rejection, or a rejection and then a reaction. -/
theorem forms (reported : Reported p life events) : events.map Rejection.handled ∈ [[], [false], [false, true]] := by
  cases reported <;> simp

end Reported

/-- What is known of a promise agrees with what has happened to it, and that has been reported. A promise that is
gone has been reported likewise. -/
structure Affairs.Follows (p : Ptr) (life : List Happening) (events : List Rejection) (a : Affairs) : Prop where
  handled : ∀ r, a.promises.get? p = some r -> (r.handled = true ↔ .reacted p ∈ life)
  settled : ∀ r v rejected, a.promises.get? p = some r ->
    (r.settlement = .ofPayload rejected v ↔ .settled p v rejected ∈ life)
  once : (life.filterMap Happening.settled?).Nodup
  reported : Reported p life events

/-- Things have happened and events were recorded, and each promise has got its share. -/
structure Affairs.Adds (a b : Affairs) (news : List Happening) (events : List Rejection) : Prop where
  history : b.history = news.reverse ++ a.history
  rejections : b.rejections = a.rejections ++ events
  follows : ∀ p life reports, a.Follows p life reports ->
    b.Follows p (life ++ Happening.concerning p news) (reports ++ Rejection.concerning p events)

namespace Affairs

variable {a b c : Affairs} {p v : Ptr} {r r' : PromiseRecord} {news news' : List Happening}
  {events events' : List Rejection} {life : List Happening} {reports : List Rejection}

theorem Adds.of_follows (history : b.history = a.history) (rejections : b.rejections = a.rejections)
    (follows : ∀ p life reports, a.Follows p life reports -> b.Follows p life reports) : a.Adds b [] [] :=
  ⟨history, rejections.trans (List.append_nil _).symm, fun p life reports before => by
    simpa [Happening.concerning, Rejection.concerning] using follows p life reports before⟩

theorem Adds.refl (a : Affairs) : a.Adds a [] [] :=
  .of_follows rfl rfl fun _ _ _ => id

theorem Adds.trans (first : a.Adds b news events) (second : b.Adds c news' events') :
    a.Adds c (news ++ news') (events ++ events') where
  history := by rw [second.history, first.history, List.reverse_append, List.append_assoc]
  rejections := by rw [second.rejections, first.rejections, List.append_assoc]
  follows p life reports before := by
    have after := second.follows p _ _ (first.follows p life reports before)
    simpa only [Happening.concerning, Rejection.concerning, List.filter_append, List.append_assoc] using after

theorem Follows.of_promises (before : a.Follows p life reports)
    (kept : ∀ r', b.promises.get? p = some r' -> ∃ r, a.promises.get? p = some r ∧ r'.handled = r.handled ∧
      r'.settlement = r.settlement) : b.Follows p life reports where
  handled r' found := by
    obtain ⟨r, here, handled, -⟩ := kept r' found
    exact handled ▸ before.handled r here
  settled r' v rejected found := by
    obtain ⟨r, here, -, settlement⟩ := kept r' found
    exact settlement ▸ before.settled r v rejected here
  once := before.once
  reported := before.reported

/-- A promise settles only once, so a reaction before that is one before any rejection. -/
theorem Follows.attended {older newer : List Happening} (before : a.Follows p life reports)
    (same : life = older ++ .settled p v true :: newer) (reacted : .reacted p ∈ older) : reports = [] := by
  have unique {older' newer' : List Happening} {w : Ptr} (other : life = older' ++ .settled p w true :: newer') :
      older' = older := by
    have once := before.once
    subst same
    rcases List.append_eq_append_iff.1 other with ⟨between, rfl, rest⟩ | ⟨between, rfl, rest⟩
    all_goals cases between with
      | nil => simp
      | cons x between =>
        obtain ⟨rfl, rfl⟩ := List.cons.inj rest
        simp [Happening.settled?, List.nodup_append] at once
  cases before.reported with
  | quiet => rfl
  | unhandled unattended => exact absurd (unique rfl ▸ reacted) unattended
  | handled unattended => exact absurd (unique rfl ▸ reacted) unattended

theorem Forgets.adds (less : a.Forgets b) : a.Adds b [] [] :=
  .of_follows less.history less.rejections fun _ _ _ before =>
    before.of_promises fun r' found => ⟨r', less.promise found, rfl, rfl⟩

theorem adds_mark (here : a.promises.get? p = some r) : a.Adds (a.mark p r) [] [] := by
  refine .of_follows rfl rfl fun q life reports before => before.of_promises fun r' found => ?_
  simp only [Affairs.mark, Table.get?_set] at found
  split at found
  next same =>
    cases found
    exact ⟨r, same ▸ here, rfl, rfl⟩
  next => exact ⟨r', found, rfl, rfl⟩

/-- What happens to one promise leaves the others as they were. -/
theorem Follows.apart {q : Ptr} {x : Happening} (before : a.Follows q life reports) (other : x.promise ≠ q)
    (others : ∀ e ∈ events, e.promise ≠ q) (same : b.promises.get? q = a.promises.get? q) :
    b.Follows q (life ++ Happening.concerning q [x]) (reports ++ Rejection.concerning q events) := by
  have none : Rejection.concerning q events = [] := List.filter_eq_nil_iff.2 fun e member => by simp [others e member]
  have nothing : Happening.concerning q [x] = [] := List.filter_eq_nil_iff.2 fun y member => by simp_all
  rw [none, nothing, List.append_nil, List.append_nil]
  exact before.of_promises fun r' found => ⟨r', same ▸ found, rfl, rfl⟩

theorem Follows.pending (before : a.Follows p life reports) (here : a.promises.get? p = some r)
    (pending : r.settlement = .pending) (v : Ptr) (rejected : Bool) : .settled p v rejected ∉ life := by
  intro told
  have settled := (before.settled r v rejected here).2 told
  exact ofPayload_ne_pending rejected v (settled.symm.trans pending)

theorem adds_settle (here : a.promises.get? p = some r) (pending : r.settlement = .pending) (v : Ptr) (rejected : Bool) :
    a.Adds (a.settle p r v rejected) [.settled p v rejected] (if rejected && !r.handled then [⟨p, v, false⟩] else []) where
  history := rfl
  rejections := rfl
  follows q life reports before := by
    by_cases same : p = q
    next =>
      subst same
      have unsettled := before.pending here pending
      have mine : Rejection.concerning p (if rejected && !r.handled then [⟨p, v, false⟩] else []) =
          if rejected && !r.handled then [⟨p, v, false⟩] else [] := by split <;> simp [Rejection.concerning]
      have life' : Happening.concerning p [.settled p v rejected] = [.settled p v rejected] := by
        simp [Happening.concerning, Happening.promise]
      rw [mine, life']
      constructor
      case handled =>
        intro r' found
        obtain rfl : _ = r' := by simpa [Affairs.settle] using found
        simpa using before.handled r here
      case settled =>
        intro r' w b found
        obtain rfl : _ = r' := by simpa [Affairs.settle] using found
        have never := unsettled w b
        constructor
        next =>
          intro settled
          obtain ⟨rfl, rfl⟩ := ofPayload_inj settled
          simp
        next =>
          intro told
          obtain ⟨rfl, rfl⟩ : w = v ∧ b = rejected := by simpa [never] using told
          rfl
      case once =>
        simp only [List.filterMap_append, List.filterMap_cons, Happening.settled?, List.filterMap_nil]
        refine List.nodup_append.2 ⟨before.once, List.pairwise_singleton _ p, ?_⟩
        rintro q settled q' last rfl
        obtain rfl : q = p := by simpa using last
        obtain ⟨w, b, told⟩ := mem_settled.1 settled
        exact unsettled w b told
      case reported => exact before.reported.settle unsettled (before.handled r here) v rejected
    next =>
      have other : (Happening.settled p v rejected).promise ≠ q := same
      refine before.apart other (fun e member => ?_) (by simp [Affairs.settle, same])
      split at member
      next => exact (List.mem_singleton.1 member) ▸ other
      next => cases member

theorem adds_react (here : a.promises.get? p = some r) (settlement : r'.settlement = r.settlement)
    (due : ∀ e ∈ events, e.promise = p)
    (reported : ∀ life reports, a.Follows p life reports -> Reported p (life ++ [.reacted p]) (reports ++ events)) :
    a.Adds (a.react p r' events) [.reacted p] events where
  history := rfl
  rejections := rfl
  follows q life reports before := by
    by_cases same : p = q
    next =>
      subst same
      have mine : Rejection.concerning p events = events := List.filter_eq_self.2 fun e member => by simp [due e member]
      have life' : Happening.concerning p [.reacted p] = [.reacted p] := by
        simp [Happening.concerning, Happening.promise]
      rw [mine, life']
      constructor
      case handled =>
        intro x found
        obtain rfl : _ = x := by simpa [Affairs.react] using found
        simp
      case settled =>
        intro x w b found
        obtain rfl : _ = x := by simpa [Affairs.react] using found
        simpa [settlement] using before.settled r w b here
      case once =>
        rw [List.filterMap_append, List.filterMap_cons_none rfl, List.filterMap_nil, List.append_nil]
        exact before.once
      case reported => exact reported life reports before
    next =>
      have other : (Happening.reacted p).promise ≠ q := same
      exact before.apart other (fun e member => due e member ▸ same) (by simp [Affairs.react, same])

end Affairs

variable {s s' : List Task × Affairs} {exact : Prop}

theorem Turn.adds (step : Turn s s') : ∃ news events, s.2.Adds s'.2 news events := by
  cases step with
  | forget less => exact ⟨_, _, less.adds⟩
  | settle here pending plain => exact ⟨_, _, Affairs.adds_settle here pending _ _⟩
  | @store p x r o a here pending =>
    refine ⟨_, _, Affairs.adds_react here rfl nofun fun life reports before => ?_⟩
    rw [List.append_nil]
    exact before.reported.react_again (.inr fun v => before.pending here pending v true)
  | @react p v x rejected r o a here settled =>
    refine ⟨_, _, Affairs.adds_react here rfl (fun e member => ?_) fun life reports before => ?_⟩
    next =>
      split at member
      next => exact List.mem_singleton.1 member ▸ rfl
      next => cases member
    next =>
      have told (w : Ptr) : .settled p w true ∈ life ↔ rejected = true ∧ w = v := by
        rw [← before.settled r w true here, settled]
        constructor
        next =>
          intro same
          obtain ⟨rfl, rfl⟩ := ofPayload_inj same
          exact ⟨rfl, rfl⟩
        next =>
          rintro ⟨rfl, rfl⟩
          rfl
      have handled := before.handled r here
      split
      next fires =>
        simp only [Bool.and_eq_true, Bool.not_eq_true', ← Bool.not_eq_true, handled] at fires
        exact before.reported.react_first fires.2 fun w => by simp [told, fires.1]
      next calm =>
        rw [List.append_nil]
        refine before.reported.react_again ?_
        by_cases reacted : .reacted p ∈ life
        next => exact .inl reacted
        next => exact .inr fun w settled => calm (by simp [((told w).1 settled).1, ← Bool.not_eq_true, handled, reacted])
  | enqueue => exact ⟨_, _, .of_follows rfl rfl fun _ _ _ before => before.of_promises fun r found => ⟨r, found, rfl, rfl⟩⟩
  | _ => exact ⟨_, _, .refl _⟩

theorem Turns.adds (steps : Turns s s') : ∃ news events, s.2.Adds s'.2 news events := by
  induction steps with
  | refl => exact ⟨_, _, .refl _⟩
  | tail _ step ih =>
    obtain ⟨news, events, first⟩ := ih
    obtain ⟨news', events', second⟩ := step.adds
    exact ⟨_, _, first.trans second⟩

/-- An opening may make a promise, to which nothing has happened yet. -/
theorem Opening.follows {p : Ptr} {life : List Happening} {reports : List Rejection} (opening : Opening exact s s')
    (before : s.2.Follows p life reports) (new : s.2.promises.get? p = none -> life = [] ∧ reports = []) :
    s'.2.Follows p life reports := by
  have begun {a : Affairs} {n : Nat} (absent : a.promises.get? (UInt32.ofNat n) = none) (before : a.Follows p life reports)
      (new : a.promises.get? p = none -> life = [] ∧ reports = []) : (a.begin n).Follows p life reports := by
    by_cases same : UInt32.ofNat n = p
    next =>
      obtain ⟨rfl, rfl⟩ := new (same ▸ absent)
      have fresh (r : PromiseRecord) (found : (a.begin n).promises.get? p = some r) : r = .fresh := by
        simpa [Affairs.begin, same, eq_comm] using found
      refine ⟨fun r found => ?_, fun r v rejected found => ?_, List.nodup_nil, .start p⟩
      next => simp [fresh r found, PromiseRecord.fresh]
      next => cases rejected <;> simp [fresh r found, PromiseRecord.fresh, Settlement.ofPayload]
    next => exact before.of_promises fun r found => ⟨r, by simpa [Affairs.begin, same] using found, rfl, rfl⟩
  cases opening with
  | capability n later absent => exact (begun absent before new).of_promises fun r found => ⟨r, found, rfl, rfl⟩
  | derive n later absent => exact begun absent before new
  | clear => exact before.of_promises fun r found => by simp [Affairs.clear] at found
  | _ => exact before.of_promises fun r found => ⟨r, found, rfl, rfl⟩

namespace Hosting

variable {s : Hosting} {m : Move} {moves : List Move} {p v : Ptr} {i j k : Nat} {r : PromiseRecord}

/-- The events recorded so far that a move does not take away. -/
def left (s : Hosting) : Move -> List Rejection
  | .request (.takeRejectionEvents _) => []
  | .request .freeContext => []
  | .request .freeRuntime => []
  | _ => s.engine.heap.rejections

/-- What a move adds, told of every promise that was there before or is made by it. -/
structure Advances (s : Hosting) (m : Move) (news : List Happening) (events : List Rejection) : Prop where
  history : (s.step m).engine.heap.history = news.reverse ++ s.engine.heap.history
  rejections : (s.step m).engine.heap.rejections = s.left m ++ events
  follows : ∀ p life reports, s.state.2.Follows p life reports ->
    (s.engine.heap.isPromise p = false -> life = [] ∧ reports = []) ->
    (s.step m).state.2.Follows p (life ++ Happening.concerning p news) (reports ++ Rejection.concerning p events)

theorem advances_of_adds {news : List Happening} {events : List Rejection} (left : s.left m = s.engine.heap.rejections)
    (adds : s.state.2.Adds (s.step m).state.2 news events) : Advances s m news events :=
  ⟨adds.history, adds.rejections.trans (congrArg (· ++ events) left.symm), fun p life reports before _ =>
    adds.follows p life reports before⟩

theorem advances_of_opening {mid : List Task × Affairs} (opening : Opening False s.state mid)
    (turns : Turns mid (s.step m).state) (left : mid.2.rejections = s.left m) : ∃ news events, Advances s m news events := by
  obtain ⟨news, events, adds⟩ := Turns.adds turns
  refine ⟨news, events, adds.history.trans (congrArg _ opening.same_history), left ▸ adds.rejections, ?_⟩
  intro p life reports before new
  refine adds.follows p life reports (opening.follows before fun absent => new ?_)
  simpa [Heap.isPromise] using (Heap.get?_promises _ p).symm.trans absent

theorem called_adds (s : Hosting) (m : Move) : ∃ news events, s.state.2.Adds (s.called m).2 news events := by
  rcases called_cases s m with ⟨idle, -⟩ | ⟨p, v, reject, r, f, -, -, found, -, turns⟩
  next => exact ⟨[], [], by rw [idle]; exact Affairs.Adds.refl _⟩
  next =>
    obtain ⟨news, events, adds⟩ := Turns.adds turns
    exact ⟨_, _, (Affairs.adds_mark found).trans adds⟩

theorem request_advances (s : Hosting) (r : Request) : ∃ news events, Advances s (.request r) news events := by
  have common (plain : r.isReserved = false) (left : s.left (.request r) = s.engine.heap.rejections) :
      ∃ news events, Advances s (.request r) news events := by
    obtain ⟨mid, opening, turns, kept⟩ := Engine.perform_opens (o := s.tasks) (s := s.engine) r False.elim
    exact advances_of_opening opening turns ((kept plain).trans left.symm)
  cases r with
  | freeContext => exact advances_of_opening .clear .refl rfl
  | freeRuntime => exact advances_of_opening .clear .refl rfl
  | takeRejectionEvents out =>
    exact advances_of_opening .collect (.single (.forget (Engine.takeRejectionEvents_forgets out s.engine))) rfl
  | setMemoryLimit limit =>
    exact advances_of_opening .rest (.single (.forget (Engine.perform_forgetful (.setMemoryLimit limit) rfl s.engine))) rfl
  | _ => exact common rfl rfl

theorem step_advances (s : Hosting) (m : Move) : ∃ news events, Advances s m news events := by
  have still (left : s.left m = s.engine.heap.rejections) (same : (s.step m).state.2 = s.state.2) :
      ∃ news events, Advances s m news events :=
    ⟨[], [], advances_of_adds left (by rw [same]; exact Affairs.Adds.refl _)⟩
  cases m with
  | request r => exact request_advances s r
  | call function this count arguments => exact still rfl (congrArg Prod.snd (call_state s function this count arguments))
  | job =>
    have same : s.engine.beginJob.2.heap.rejections = s.engine.heap.rejections := by
      cases waiting : s.engine.heap.jobs <;> simp [Engine.beginJob, Heap.takeJob, waiting, Engine.finished]
    have stepped : (s.step .job).state = (s.engine.beginJob.1.tasks ++ s.tasks, s.engine.beginJob.2.heap.affairs) :=
      enter_state s _ _
    exact advances_of_opening Engine.beginJob_opens (stepped ▸ .refl) same
  | poll interrupted =>
    obtain ⟨news, events, called⟩ := called_adds s (.poll interrupted)
    obtain ⟨news', events', adds⟩ := Turns.adds (poll_turns s interrupted)
    exact ⟨_, _, advances_of_adds rfl (called.trans adds)⟩
  | answer p =>
    obtain ⟨news, events, adds⟩ := Turns.adds (answer_turns s p)
    exact ⟨_, _, advances_of_adds rfl adds⟩
  | _ => exact still rfl rfl

/-- The events that a move records. -/
def recorded (moves : List Move) (k : Nat) : List Rejection :=
  match moves[k]? with
  | some m => (after moves (k + 1)).engine.heap.rejections.drop ((after moves k).left m).length
  | none => []

/-- What happens to a promise from the `i`-th move on, before the `j`-th. -/
def happenings (moves : List Move) (p : Ptr) (i j : Nat) : List Happening :=
  Happening.concerning p ((after moves j).engine.heap.history.reverse.drop (after moves i).engine.heap.history.length)

/-- The events about a promise that are recorded from the `i`-th move on, before the `j`-th. -/
def reports (moves : List Move) (p : Ptr) (i j : Nat) : List Rejection :=
  Rejection.concerning p ((List.range' i (j - i)).flatMap (recorded moves))

/-- A promise is new with the `i`-th move and is there before each of those up to the `j`-th. -/
def Lasts (moves : List Move) (p : Ptr) (i j : Nat) : Prop :=
  (after moves i).engine.heap.isPromise p = false ∧ i ≤ j ∧ Lives moves p (i + 1) j

structure Reporting (moves : List Move) : Prop where
  kept : ∀ k m, moves[k]? = some m ->
    (after moves (k + 1)).engine.heap.rejections = (after moves k).left m ++ recorded moves k
  lasting : ∀ p k, (after moves k).engine.heap.isPromise p = true -> ∃ i, i < k ∧ Lasts moves p i k
  reported : ∀ p i j, Lasts moves p i j -> Reported p (happenings moves p i (j + 1)) (reports moves p i (j + 1))
  forms : ∀ p i j, Lasts moves p i j ->
    (reports moves p i (j + 1)).map Rejection.handled ∈ [[], [false], [false, true]]
  attended : ∀ p i j v older newer, Lasts moves p i j ->
    happenings moves p i (j + 1) = older ++ .settled p v true :: newer -> .reacted p ∈ older ->
      reports moves p i (j + 1) = []
  handled : ∀ p i j r, Lasts moves p i j -> (after moves (j + 1)).engine.heap.promise? p = some r ->
    (r.handled = true ↔ .reacted p ∈ happenings moves p i (j + 1))
  settled : ∀ p i j r v rejected, Lasts moves p i j -> (after moves (j + 1)).engine.heap.promise? p = some r ->
    (r.settlement = .ofPayload rejected v ↔ .settled p v rejected ∈ happenings moves p i (j + 1))

theorem recorded_next {m : Move} {news : List Happening} {events : List Rejection} (here : moves[k]? = some m)
    (advances : Advances (after moves k) m news events) : recorded moves k = events := by
  simp only [recorded, here]
  rw [after_succ here, advances.rejections, List.drop_left]

theorem recorded_past (here : moves[k]? = none) : recorded moves k = [] := by
  simp only [recorded, here]

theorem reports_succ (first : i ≤ j) :
    reports moves p i (j + 1) = reports moves p i j ++ Rejection.concerning p (recorded moves j) := by
  have more : j + 1 - i = (j - i) + 1 := by omega
  have last : i + (j - i) = j := by omega
  simp [reports, more, List.range'_concat, last, Rejection.concerning]

theorem history_suffix (moves : List Move) (first : i ≤ j) :
    (after moves i).engine.heap.history <:+ (after moves j).engine.heap.history := by
  induction first with
  | refl => exact List.suffix_refl _
  | @step j _ ih =>
    cases here : moves[j]? with
    | none => exact after_past here ▸ ih
    | some m =>
      obtain ⟨news, events, advances⟩ := step_advances (after moves j) m
      rw [after_succ here, advances.history]
      exact ih.trans (List.suffix_append ..)

theorem happenings_succ {news : List Happening} (first : i ≤ j)
    (next : (after moves (j + 1)).engine.heap.history = news.reverse ++ (after moves j).engine.heap.history) :
    happenings moves p i (j + 1) = happenings moves p i j ++ Happening.concerning p news := by
  have short : (after moves i).engine.heap.history.length ≤ (after moves j).engine.heap.history.reverse.length := by
    rw [List.length_reverse]
    exact (history_suffix moves first).length_le
  rw [happenings, happenings, next, List.reverse_append, List.reverse_reverse, List.drop_append_of_le_length short,
    Happening.concerning, List.filter_append]
  rfl

theorem happenings_self (moves : List Move) (p : Ptr) (i : Nat) : happenings moves p i i = [] := by
  have none : (after moves i).engine.heap.history.reverse.drop (after moves i).engine.heap.history.length = [] := by simp
  rw [happenings, none]
  rfl

theorem reports_self (moves : List Move) (p : Ptr) (i : Nat) : reports moves p i i = [] := by
  simp [reports, Rejection.concerning]

/-- What is known of a promise is right from the move that makes it to the one that it does not survive. -/
theorem follows_at (absent : (after moves i).engine.heap.isPromise p = false) (first : i ≤ j)
    (alive : ∀ k, i < k -> k < j -> (after moves k).engine.heap.isPromise p = true) :
    (after moves j).state.2.Follows p (happenings moves p i j) (reports moves p i j) := by
  induction first with
  | refl =>
    rw [happenings_self, reports_self]
    have none (r : PromiseRecord) : (after moves i).state.2.promises.get? p ≠ some r := fun found => by
      simp [Heap.isPromise, (Heap.get?_promises _ p).symm.trans found] at absent
    exact ⟨fun r found => absurd found (none r), fun r _ _ found => absurd found (none r), List.nodup_nil, .start p⟩
  | @step j first ih =>
    have before := ih fun k early late => alive k early (by omega)
    cases here : moves[j]? with
    | none =>
      have quiet : (after moves (j + 1)).engine.heap.history = [].reverse ++ (after moves j).engine.heap.history := by
        rw [after_past here]
        rfl
      rw [reports_succ first, recorded_past here, happenings_succ first quiet, after_past here]
      simpa [Happening.concerning, Rejection.concerning] using before
    | some m =>
      obtain ⟨news, events, advances⟩ := step_advances (after moves j) m
      rw [reports_succ first, recorded_next here advances,
        happenings_succ first (by rw [after_succ here]; exact advances.history), after_succ here]
      refine advances.follows p _ _ before fun gone => ?_
      rcases Nat.eq_or_lt_of_le first with rfl | later
      next => exact ⟨happenings_self .., reports_self ..⟩
      next => simp [alive j later (Nat.lt_succ_self j)] at gone

theorem Lasts.follows (lasts : Lasts moves p i j) : (after moves (j + 1)).state.2.Follows p
    (happenings moves p i (j + 1)) (reports moves p i (j + 1)) := by
  obtain ⟨absent, first, lives⟩ := lasts
  exact follows_at absent (by omega) fun k early late => lives k early (by omega)

theorem exists_lasts (moves : List Move) (there : (after moves k).engine.heap.isPromise p = true) :
    ∃ i, i < k ∧ Lasts moves p i k := by
  induction k with
  | zero => simp [Heap.isPromise, start_promise?] at there
  | succ k ih =>
    cases before : (after moves k).engine.heap.isPromise p with
    | false => exact ⟨k, Nat.lt_succ_self k, before, Nat.le_succ k, .self there⟩
    | true =>
      obtain ⟨i, earlier, absent, first, lives⟩ := ih before
      exact ⟨i, by omega, absent, by omega, lives.to_succ there⟩

/-- However a run goes on, a promise is reported when it is rejected unattended, and then when it is attended to. -/
theorem run_reporting (moves : List Move) : Reporting moves where
  kept k m here := by
    obtain ⟨news, events, advances⟩ := step_advances (after moves k) m
    rw [after_succ here, advances.rejections, recorded_next here advances]
  lasting p k there := exists_lasts moves there
  reported p i j lasts := lasts.follows.reported
  forms p i j lasts := lasts.follows.reported.forms
  attended p i j v older newer lasts same reacted := lasts.follows.attended same reacted
  handled p i j r lasts found := lasts.follows.handled r ((Heap.get?_promises _ p).trans found)
  settled p i j r v rejected lasts found := lasts.follows.settled r v rejected ((Heap.get?_promises _ p).trans found)

/-- A rejection is reported, and then the first of two reactions. -/
example : reports [.allocate 8, .request (.newPromiseCapability 16), .call 18 Ptr.null 0 0, .poll false,
    .request (.promiseThen 16 none none), .request (.promiseThen 16 none none)] 16 1 6 =
      [⟨16, Ptr.undefined, false⟩, ⟨16, Ptr.undefined, true⟩] := by decide +kernel

end Hosting

end ScriptHost
