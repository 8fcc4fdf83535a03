import ScriptHost.Handle
import ScriptHost.Proofs.Engine.Requests
import ScriptHost.Proofs.Link.Answers

set_option autoImplicit false

/-!
What each operation on a handle answers, and what it leaves of the vault.
-/

namespace ScriptHost

namespace Link

variable {l : Link} {p q : Ptr} {op : Equality}

def withEngine (l : Link) (e : Engine) : Link :=
  { l with engine := e }

theorem answered_request {r : Request} (direct : l.faults.get? r.name = none) (common : r.isReserved = false) :
    answered (request r common) l =
      ((outcome (Engine.perform r) l.engine).1,
        l.withEngine (outcome (Engine.perform r) l.engine).2) := by
  have intercepted : l.intercept r.name = (none, l) := by simp only [intercept, direct]
  have asked : answered (request r common) l = (Ask.request r common).perform.run l := rfl
  simp only [asked, Ask.perform, meet, unlessFaulty, StateT.run_bind, StateT.run_modifyGet, intercepted]
  rfl

@[simp] theorem wordOf_ofWord (r : Request) (w : UInt32) : wordOf r (.ofWord w) = .ok w := by
  simp only [wordOf, Scalar.word?_ofWord]

def retaining (l : Link) (p : Ptr) : Link :=
  l.withEngine { l.engine with heap := l.engine.heap.retain p }

theorem answered_dupValue (direct : l.faults.get? (Request.dupValue p).name = none)
    (known : l.engine.heap.contains p = true) (some : p ≠ 0) :
    answered (dupValue p) l = (.ok p, l.retaining p) := by
  have performed : outcome (Engine.perform (.dupValue p)) l.engine =
      (.ok (.ofWord p), { l.engine with heap := l.engine.heap.retain p }) := by
    simp only [Engine.perform, Engine.dupValue, outcome_bind, Engine.outcome_onHeap, Heap.dup, known,
      if_true, outcome_pure]
  simp only [dupValue, value, word, answered_bind, answered_request direct rfl, performed, answered_ofExcept,
    wordOf_ofWord, answered_pure, some, if_false, retaining]

/-- What the engine says to it does not matter. -/
theorem answered_freeValue_ok (p : Ptr) (l : Link) : (answered (freeValue p) l).1 = .ok () := by
  simp only [freeValue, answered_bind, answered_attempt, answered_pure]

theorem answered_freeValue (direct : l.faults.get? (Request.freeValue p).name = none) :
    answered (freeValue p) l =
      (.ok (), l.withEngine (outcome (Engine.perform (.freeValue p)) l.engine).2) := by
  simp only [freeValue, answered_bind, answered_attempt, answered_request direct rfl, answered_pure]

theorem answered_isEqual (direct : l.faults.get? (Request.isEqual p q op).name = none) :
    answered (isEqual p q op) l = (.ok (l.engine.heap.isEqual p q op), l) := by
  have performed : outcome (Engine.perform (.isEqual p q op)) l.engine =
      (.ok (.ofBool (l.engine.heap.isEqual p q op)), l.engine) := rfl
  simp only [isEqual, int, answered_bind, answered_request direct rfl, performed]
  cases l.engine.heap.isEqual p q op <;> rfl

end Link

namespace Vault

variable {v : Vault} {t : Thread} {e : Error} {operation : String}

theorem outcome_checkAccess_ok (granted : v.access t operation = .ok ()) :
    outcome (checkAccess t operation) v = (.ok (), v) := by
  simp only [checkAccess, outcome_bind, outcome_get, granted, outcome_pure]

theorem outcome_checkAccess_error (refused : v.access t operation = .error e) :
    outcome (checkAccess t operation) v = (.error e, v) := by
  simp only [checkAccess, outcome_bind, outcome_get, refused, outcome_throw]

theorem outcome_withLink {α : Type} (act : LinkM α) (granted : v.access t operation = .ok ()) :
    outcome (withLink t operation act) v =
      ((Link.answered act v.link).1, { v with link := (Link.answered act v.link).2 }) := by
  simp only [withLink, outcome_bind, outcome_checkAccess_ok granted]
  rfl

theorem outcome_withLink_error {α : Type} (act : LinkM α) (refused : v.access t operation = .error e) :
    outcome (withLink t operation act) v = (.error e, v) := by
  simp only [withLink, outcome_bind, outcome_checkAccess_error refused]

def refusal (v : Vault) (operation : String) : Error :=
  if v.closed then .engineClosed else .wrongThread operation

theorem access_granted (operation : String) (opened : v.closed = false) :
    v.access .worker operation = .ok () := by
  simp [access, opened]

theorem access_refused (operation : String) (barred : v.closed = true ∨ t = .other) :
    v.access t operation = .error (v.refusal operation) := by
  unfold access refusal
  cases closed : v.closed with
  | true => rfl
  | false =>
    obtain rfl : t = .other := barred.resolve_left (by simp [closed])
    rfl

theorem barred_or_granted (v : Vault) (t : Thread) :
    (v.closed = true ∨ t = .other) ∨ (v.closed = false ∧ t = .worker) := by
  cases v.closed <;> cases t <;> simp

def without (v : Vault) (h : Handle) : Vault :=
  { v with alive := v.alive.filter fun r => !decide (h.reference = some r) }

def withNew (v : Vault) : Vault :=
  { v with alive := v.nextReference :: v.alive, nextReference := v.nextReference + 1 }

end Vault

namespace Handle

variable {h h' : Handle} {v : Vault} {t : Thread} {r : ReferenceId}

theorem raw_alive (alive : h.isAlive v = true) : h.raw v = .ok h.ptr := by
  simp [raw, alive]

theorem raw_dead (dead : h.isAlive v = false) : h.raw v = .error deadError := by
  simp [raw, dead]

theorem outcome_rawM (alive : h.isAlive v = true) : outcome h.rawM v = (.ok h.ptr, v) := by
  simp only [rawM, outcome_bind, outcome_get, raw_alive alive, outcome_pure]

theorem outcome_rawM_dead (dead : h.isAlive v = false) : outcome h.rawM v = (.error deadError, v) := by
  simp only [rawM, outcome_bind, outcome_get, raw_dead dead, outcome_throw]

theorem borrow_alive (alive : h.isAlive v = true) :
    h.borrow v = .ok { h with ownership := .borrowed } := by
  simp [borrow, raw_alive alive, Except.map]

theorem borrow_dead (dead : h.isAlive v = false) : h.borrow v = .error deadError := by
  simp [borrow, raw_dead dead, Except.map]

theorem duplicate_dead (dead : h.isAlive v = false) (t : Thread) :
    outcome (h.duplicate t) v = (.error deadError, v) := by
  simp only [duplicate, outcome_bind, outcome_rawM_dead dead]

theorem release_dead (dead : h.isAlive v = false) (t : Thread) :
    outcome (h.release t) v = (.error deadError, v) := by
  simp only [release, outcome_bind, outcome_rawM_dead dead]

theorem handOver_dead (dead : h.isAlive v = false) (t : Thread) :
    outcome (h.handOver t) v = (.error deadError, v) := by
  simp only [handOver, outcome_bind, outcome_rawM_dead dead]

theorem release_borrowed (alive : h.isAlive v = true) (view : h.ownership = .borrowed) (t : Thread) :
    outcome (h.release t) v = (.error .borrowedRelease, v) := by
  simp only [release, outcome_bind, outcome_rawM alive, view, if_true, outcome_throw]

theorem duplicate_refused (alive : h.isAlive v = true) (barred : v.closed = true ∨ t = .other) :
    outcome (h.duplicate t) v = (.error (v.refusal "duplicate handle"), v) := by
  have refused := Vault.access_refused "duplicate handle" barred
  simp only [duplicate, outcome_bind, outcome_rawM alive, Vault.outcome_withLink_error _ refused]

theorem release_refused (alive : h.isAlive v = true) (owned : h.ownership = .owned)
    (barred : v.closed = true ∨ t = .other) :
    outcome (h.release t) v = (.error (v.refusal "release handle"), v) := by
  have refused := Vault.access_refused "release handle" barred
  simp only [release, outcome_bind, outcome_rawM alive, owned, reduceCtorEq, if_false,
    Vault.outcome_withLink_error _ refused]

theorem handOver_refused (alive : h.isAlive v = true) (barred : v.closed = true ∨ t = .other) :
    outcome (h.handOver t) v = (.error (v.refusal "transfer handle"), v) := by
  have refused := Vault.access_refused "transfer handle" barred
  cases kind : h.ownership with
  | owned =>
    simp only [handOver, outcome_bind, outcome_rawM alive, kind, Vault.outcome_checkAccess_error refused]
  | borrowed =>
    simp only [handOver, outcome_bind, outcome_rawM alive, kind,
      Vault.outcome_withLink_error _ refused]

theorem sameValue_refused (alive : h.isAlive v = true) (alive' : h'.isAlive v = true)
    (barred : v.closed = true ∨ t = .other) :
    outcome (h.sameValue h' t) v = (.error (v.refusal "compare handles"), v) := by
  have refused := Vault.access_refused "compare handles" barred
  simp only [sameValue, outcome_bind, outcome_rawM alive, outcome_rawM alive',
    Vault.outcome_withLink_error _ refused]

theorem duplicate_open (alive : h.isAlive v = true) (opened : v.closed = false) :
    outcome (h.duplicate .worker) v =
      match Link.answered (Link.dupValue h.ptr) v.link with
      | (.ok p, l) => (.ok ⟨p, .owned, some v.nextReference⟩, { v.withNew with link := l })
      | (.error e, l) => (.error e, { v with link := l }) := by
  have granted := Vault.access_granted "duplicate handle" opened
  simp only [duplicate, outcome_bind, outcome_rawM alive, Vault.outcome_withLink _ granted]
  generalize Link.answered (Link.dupValue h.ptr) v.link = r
  obtain ⟨_ | p, l⟩ := r <;> rfl

theorem duplicate_granted (alive : h.isAlive v = true) (opened : v.closed = false)
    (direct : v.link.faults.get? (Request.dupValue h.ptr).name = none)
    (known : v.link.engine.heap.contains h.ptr = true) (some : h.ptr ≠ 0) :
    outcome (h.duplicate .worker) v =
      (.ok ⟨h.ptr, .owned, v.nextReference⟩, { v.withNew with link := v.link.retaining h.ptr }) := by
  rw [duplicate_open alive opened, Link.answered_dupValue direct known some]

theorem release_alive (alive : h.isAlive v = true) (owned : h.ownership = .owned) (opened : v.closed = false) :
    outcome (h.release .worker) v =
      (.ok (), { v.without h with link := (Link.answered (Link.freeValue h.ptr) v.link).2 }) := by
  have granted := Vault.access_granted "release handle" opened
  simp only [release, outcome_bind, outcome_rawM alive, owned, reduceCtorEq, if_false,
    Vault.outcome_withLink _ granted, Link.answered_freeValue_ok]
  rfl

theorem release_granted (alive : h.isAlive v = true) (owned : h.ownership = .owned)
    (opened : v.closed = false) (direct : v.link.faults.get? (Request.freeValue h.ptr).name = none) :
    outcome (h.release .worker) v =
      (.ok (), { v.without h with
        link := v.link.withEngine (outcome (Engine.perform (.freeValue h.ptr)) v.link.engine).2 }) := by
  rw [release_alive alive owned opened, Link.answered_freeValue direct]

theorem handOver_owned (alive : h.isAlive v = true) (owned : h.ownership = .owned)
    (opened : v.closed = false) : outcome (h.handOver .worker) v = (.ok h.ptr, v.without h) := by
  have granted := Vault.access_granted "transfer handle" opened
  simp only [handOver, outcome_bind, outcome_rawM alive, owned, Vault.outcome_checkAccess_ok granted]
  rfl

theorem handOver_view (alive : h.isAlive v = true) (view : h.ownership = .borrowed)
    (opened : v.closed = false) (direct : v.link.faults.get? (Request.dupValue h.ptr).name = none)
    (known : v.link.engine.heap.contains h.ptr = true) (some : h.ptr ≠ 0) :
    outcome (h.handOver .worker) v = (.ok h.ptr, { v with link := v.link.retaining h.ptr }) := by
  have granted := Vault.access_granted "transfer handle" opened
  simp only [handOver, outcome_bind, outcome_rawM alive, view, Vault.outcome_withLink _ granted,
    Link.answered_dupValue direct known some]

theorem sameValue_granted (alive : h.isAlive v = true) (alive' : h'.isAlive v = true)
    (opened : v.closed = false)
    (direct : v.link.faults.get? (Request.isEqual h.ptr h'.ptr .sameValue).name = none) :
    outcome (h.sameValue h' .worker) v =
      (.ok (v.link.engine.heap.isEqual h.ptr h'.ptr .sameValue), v) := by
  have granted := Vault.access_granted "compare handles" opened
  simp only [sameValue, outcome_bind, outcome_rawM alive, outcome_rawM alive',
    Vault.outcome_withLink _ granted, Link.answered_isEqual direct]

theorem discard_run (h : Handle) (t : Thread) (v : Vault) :
    ((h.discard t).run v).2 =
      if h.isAlive v = true ∧ h.ownership = .owned ∧ v.closed = false ∧ t = .worker then
        (outcome (h.release t) v).2
      else v := by
  have ran : ((h.discard t).run v).2 =
      (if h.isAlive v && h.isOwned && !v.closed && t = .worker then (outcome (h.release t) v).2
        else v) := by
    change ((if h.isAlive v && h.isOwned && !v.closed && t = .worker then do
        let _ <- (h.release t).run
      else pure () : StateM Vault Unit).run v).2 = _
    split <;> rfl
  rw [ran]
  simp [isOwned, and_assoc]

end Handle

end ScriptHost
