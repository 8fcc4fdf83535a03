import ScriptHost.Proofs.Link.Composed

set_option autoImplicit false

/-!
What the error of a failed call across the link tells of.

If no exception was pending before, it can only be the one that the request itself has raised.
-/

namespace ScriptHost

namespace Link

variable {α : Type} {l l' : Link} {p : Ptr} {r : Request} {e : Error}

/-- The engine once it has carried out a request. -/
def after (l : Link) (r : Request) : Link :=
  l.withEngine (outcome (Engine.perform r) l.engine).2

/-- There was no exception before the request. -/
structure Raises (l : Link) (r : Request) (p : Ptr) : Prop where
  before : l.Calm
  after : (l.after r).engine.heap.exception = some p

/-- What an operation fails with where the engine has raised nothing. -/
def oddities (operation : String) : List Error :=
  [.foreign operation "export returned a non-pointer value", .foreign operation "export returned a non-integer value",
    unexplained operation]

/-- The error with which a request has failed is its own, or tells of what the request has raised. -/
inductive Blames (l : Link) (r : Request) : Error -> Prop where
  | refused {e : Error} (refused : (outcome (Engine.perform r) l.engine).1 = .error e) : Blames l r e
  | odd {e : Error} (odd : e ∈ oddities r.name) : Blames l r e
  | raised {p : Ptr} {l' : Link} (raises : l.Raises r p) (pending : l'.engine.heap.exception = some p) (depth : Nat) :
      Blames l r (.foreign r.name (diagnosis (answered (explain depth p) l'.eased).1))

theorem blames_failure (usable : l'.Usable) (calm : l.Calm)
    (same : l'.engine.heap.exception = (l.after r).engine.heap.exception) :
    ∃ e, (answered (failure r.name) l').1 = .ok e ∧ l.Blames r e := by
  change ∃ e, (answered (failureWithin (999 + 1) r.name) l').1 = .ok e ∧ _
  rw [answered_failureWithin usable]
  have odd : l.Blames r (unexplained r.name) := .odd (by simp [oddities])
  cases exception : l'.engine.heap.exception with
  | none => exact ⟨_, rfl, odd⟩
  | some p =>
    by_cases zero : p = 0
    next =>
      rw [zero]
      exact ⟨_, rfl, odd⟩
    next =>
      have nonzero : Ptr.nonzero? p = some p := if_neg zero
      simp only [Option.getD_some, nonzero]
      exact ⟨_, rfl, .raised ⟨calm, same.symm.trans exception⟩ exception _⟩

/-- What is thrown once the failure has been explained. -/
theorem blames_thrown (usable : l'.Usable) (calm : l.Calm)
    (same : l'.engine.heap.exception = (l.after r).engine.heap.exception)
    (failed : (answered (failure r.name >>= fun e => (throw e : LinkM α)) l').1 = .error e) : l.Blames r e := by
  obtain ⟨about, told, blames⟩ := blames_failure usable calm same
  rw [answered_bind] at failed
  generalize answered (failure r.name) l' = x at *
  obtain ⟨_, l''⟩ := x
  cases told
  cases failed
  exact blames

theorem Takes.usable {β : Type} {act : LinkM β} {take : Scalar -> Except Error β} (takes : Takes act r take)
    (usable : l.Usable) : (l.after r).Usable := by
  have same : (answered act l).2 = l.after r := congrArg Prod.snd (takes l usable)
  exact same ▸ usable.answered act

theorem blames_taken {β : Type} {take : Scalar -> Except Error β}
    (odd : ∀ s e, take s = .error e -> e ∈ oddities r.name)
    (failed : (outcome (Engine.perform r) l.engine).1.bind take = .error e) : l.Blames r e := by
  cases carried : (outcome (Engine.perform r) l.engine).1 with
  | error refusal =>
    rw [carried] at failed
    cases failed
    exact .refused carried
  | ok s =>
    rw [carried] at failed
    exact .odd (odd s e failed)

theorem odd_wordOf (s : Scalar) (e : Error) (strange : wordOf r s = .error e) : e ∈ oddities r.name := by
  unfold wordOf at strange
  split at strange
  next => cases strange
  next =>
    cases strange
    exact List.mem_cons_self ..

theorem odd_intOf (s : Scalar) (e : Error) (strange : intOf r s = .error e) : e ∈ oddities r.name := by
  unfold intOf at strange
  split at strange
  next => cases strange
  next =>
    cases strange
    exact List.mem_cons_of_mem _ (List.mem_cons_self ..)

/-- An operation that makes one request blames that. -/
theorem blames_told {β : Type} {act : LinkM β} {take : Scalar -> Except Error β} {f : β -> LinkM α}
    (takes : Takes act r take) (odd : ∀ s e, take s = .error e -> e ∈ oddities r.name)
    (rest : ∀ b, (∃ a, f b = pure a) ∨ f b = (failure r.name >>= fun e => throw e)) (usable : l.Usable) (calm : l.Calm)
    (failed : (answered (act >>= f) l).1 = .error e) : l.Blames r e := by
  have taken := blames_taken (l := l) (e := e) odd
  have after := takes.usable usable
  rw [answered_bind, takes l usable] at failed
  generalize (outcome (Engine.perform r) l.engine).1.bind take = x at *
  cases x with
  | error refusal =>
    cases failed
    exact taken rfl
  | ok b =>
    change (answered (f b) (l.after r)).1 = .error e at failed
    rcases rest b with ⟨a, same⟩ | same
    next =>
      rw [same] at failed
      cases failed
    next =>
      rw [same] at failed
      exact blames_thrown after calm rfl failed

theorem blames_value {c : r.isReserved = false} (usable : l.Usable) (calm : l.Calm)
    (failed : (answered (value r c) l).1 = .error e) : l.Blames r e := by
  refine blames_told (takes_word (c := c)) odd_wordOf (fun p => ?_) usable calm failed
  split
  next => exact .inr rfl
  next => exact .inl ⟨p, rfl⟩

theorem blames_confirm {c : r.isReserved = false} {expected : Int32} (usable : l.Usable) (calm : l.Calm)
    (failed : (answered (confirm r expected c) l).1 = .error e) : l.Blames r e := by
  refine blames_told (takes_int (c := c)) odd_intOf (fun n => ?_) usable calm failed
  split
  next => exact .inl ⟨(), rfl⟩
  next => exact .inr rfl

/-- A property is set once its key has been made. The key is freed before the failure is explained. -/
theorem blames_setProp {object v : Ptr} {key : String} (usable : l.Usable) (calm : l.Calm)
    (failed : (answered (setProp object key v) l).1 = .error e) :
    (answered (newString key) l).1 = .error e ∨
      ∃ k l', answered (newString key) l = (.ok k, l') ∧ l'.Blames (.setProp object k v) e := by
  have usable' := usable.answered (newString key)
  have calm' := (composed_newString key).calm l usable calm trivial
  rw [setProp, withKey, answered_bind, answered_bind] at failed
  generalize answered (newString key) l = made at *
  obtain ⟨refusal | k, l'⟩ := made
  next =>
    cases failed
    exact .inl rfl
  change l'.Calm at calm'
  let r := Request.setProp object k v
  refine .inr ⟨k, l', rfl, ?_⟩
  have takes : Takes (int r) r (intOf r) := takes_int
  have after := takes.usable usable'
  have asked : answered (int r) l' = ((outcome (Engine.perform r) l'.engine).1.bind (intOf r), l'.after r) :=
    takes l' usable'
  have freed : answered (freeValue k) (l'.after r) = (.ok (), (l'.after r).released k) :=
    answered_free_value after.clear k
  have carried : answered (do
      let result <- attempt (int r)
      freeValue k
      ofExcept result) l' = ((outcome (Engine.perform r) l'.engine).1.bind (intOf r), (l'.after r).released k) := by
    rw [answered_bind, answered_attempt, asked]
    dsimp only
    rw [answered_bind, freed]
    exact answered_ofExcept _ _
  have taken := blames_taken (l := l') (r := r) (e := e) odd_intOf
  dsimp only at failed
  rw [carried] at failed
  generalize (outcome (Engine.perform r) l'.engine).1.bind (intOf r) = x at *
  cases x with
  | error refusal =>
    cases failed
    exact taken rfl
  | ok status =>
    dsimp only at failed
    split at failed
    next => cases failed
    next =>
      have released : ((l'.after r).released k).Usable := ⟨after.clear, after.memory⟩
      exact blames_thrown released calm' rfl failed

end Link

end ScriptHost
