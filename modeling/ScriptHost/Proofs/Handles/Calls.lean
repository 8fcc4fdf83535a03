import ScriptHost.Handle
import ScriptHost.Proofs.Link.Quiet

set_option autoImplicit false

/-!
Operations on handles only count references and ask the engine about values.
-/

namespace ScriptHost

namespace Vault

variable {α β : Type} {R : Vault -> Vault -> Prop}

/-- What is asked of the engine for the sake of handles. -/
inductive Errand : {α : Type} -> LinkM α -> Prop
  | dup (p : Ptr) : Errand (Link.dupValue p)
  | free (p : Ptr) : Errand (Link.freeValue p)
  | compare (p q : Ptr) (op : Equality) : Errand (Link.isEqual p q op)

theorem Errand.quiet {act : LinkM α} (errand : Errand act) : Link.Quiet act := by
  cases errand with
  | dup p => exact Link.quiet_dupValue p
  | free p => exact Link.quiet_freeValue p
  | compare p q op => exact Link.quiet_isEqual

structure Custodial (R : Vault -> Vault -> Prop) : Prop extends Way R where
  errand : ∀ {α : Type} {act : LinkM α}, Errand act -> ∀ v : Vault, R v { v with link := (Link.answered act v.link).2 }
  own : ∀ v : Vault, R v { v with alive := v.nextReference :: v.alive, nextReference := v.nextReference + 1 }
  bury : ∀ (v : Vault) (h : Handle), R v { v with alive := v.alive.filter fun r => !decide (h.reference = some r) }

namespace Custodial

/-- It is enough to look at single calls. -/
theorem of_asks (way : Way R) (ask : ∀ (q : Ask), q.Quiet -> ∀ v : Vault, R v { v with link := (q.perform.run v.link).2 })
    (book : ∀ v alive nextReference, R v { v with alive, nextReference }) : Custodial R where
  toWay := way
  errand errand v :=
    Dialogue.through_leads (R := fun l l' => R { v with link := l } { v with link := l' }) (fun _ => way.refl _) way.trans
      (fun q fine l => ask q fine { v with link := l }) errand.quiet v.link
  own v := book v _ _
  bury v _ := book v _ _

theorem leads_rawM (law : Custodial R) (h : Handle) : Leads R h.rawM := by
  refine law.bind (fun v => law.refl v) fun v => ?_
  split
  next => exact law.pure _
  next => exact law.throw _

theorem leads_checkAccess (law : Custodial R) (t : Thread) (operation : String) :
    Leads R (checkAccess t operation) := by
  refine law.bind (fun v => law.refl v) fun v => ?_
  split
  next => exact law.pure _
  next => exact law.throw _

theorem leads_withLink (law : Custodial R) (t : Thread) (operation : String) {act : LinkM α}
    (errand : Errand act) : Leads R (withLink t operation act) :=
  law.bind (law.leads_checkAccess t operation) fun _ v => law.errand errand v

theorem leads_own (law : Custodial R) (p : Ptr) : Leads R (ExceptT.lift (Vault.own p)) :=
  fun v => law.own v

theorem leads_bury (law : Custodial R) (h : Handle) : Leads R (ExceptT.lift (Vault.bury h)) :=
  fun v => law.bury v h

theorem leads_duplicate (law : Custodial R) (h : Handle) (t : Thread) : Leads R (h.duplicate t) := by
  refine law.bind (law.leads_rawM h) fun p => ?_
  exact law.bind (law.leads_withLink t _ (.dup p)) fun q => law.leads_own q

theorem leads_release (law : Custodial R) (h : Handle) (t : Thread) : Leads R (h.release t) := by
  refine law.bind (law.leads_rawM h) fun p => ?_
  have freed : Leads R (do
      withLink t "release handle" (Link.freeValue p)
      ExceptT.lift (Vault.bury h)) :=
    law.bind (law.leads_withLink t _ (.free p)) fun _ => law.leads_bury h
  split
  next => exact law.throw _
  next => exact freed

theorem leads_handOver (law : Custodial R) (h : Handle) (t : Thread) : Leads R (h.handOver t) := by
  refine law.bind (law.leads_rawM h) fun p => ?_
  split
  next =>
    refine law.bind (law.leads_checkAccess t _) fun _ => ?_
    exact law.bind (law.leads_bury h) fun _ => law.pure p
  next => exact law.leads_withLink t _ (.dup p)

theorem leads_sameValue (law : Custodial R) (a b : Handle) (t : Thread) : Leads R (a.sameValue b t) := by
  refine law.bind (law.leads_rawM a) fun p => law.bind (law.leads_rawM b) fun q => ?_
  exact law.leads_withLink t _ (.compare p q _)

theorem discard (law : Custodial R) (h : Handle) (t : Thread) (v : Vault) : R v ((h.discard t).run v).2 := by
  have released := law.leads_release h t v
  change R v ((if h.isAlive v && h.isOwned && !v.closed && t = .worker then do
      let _ <- (h.release t).run
    else pure () : StateM Vault Unit).run v).2
  split
  next => exact released
  next => exact law.refl v

theorem perform (law : Custodial R) (t : Thread) (c : HandleCall) (v : Vault) :
    R v ((c.perform t).run v).2 := by
  cases c with
  | own p => exact law.leads_own p v
  | duplicate h => exact law.leads_duplicate h t v
  | release h => exact law.leads_release h t v
  | handOver h => exact law.leads_handOver h t v
  | sameValue a b => exact law.leads_sameValue a b t v
  | discard h => exact law.discard h t v

end Custodial

end Vault

end ScriptHost
