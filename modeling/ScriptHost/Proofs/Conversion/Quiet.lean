import ScriptHost.Conversion
import ScriptHost.Proofs.Link.Quiet

set_option autoImplicit false

/-!
Reading a value does nothing to promises and jobs.
-/

namespace ScriptHost

namespace Conversion

open Link

variable {α : Type}

theorem quiet_entered (b : Budget) : Quiet b.entered := by
  unfold Budget.entered
  split
  next => exact quiet_pure _
  next => exact quiet_throw _

theorem quiet_charged (b : Budget) (n : Nat) : Quiet (b.charged n) := by
  unfold Budget.charged
  split
  next => exact quiet_pure _
  next => exact quiet_throw _

theorem quiet_consume (child : Ptr) {read : Ptr -> LinkM α} (quiet : ∀ p, Quiet (read p)) : Quiet (consume child read) :=
  quiet_bind (quiet_attempt (quiet child)) fun result => quiet_bind (quiet_freeValue child) fun _ => quiet_ofExcept result

theorem quiet_refuseCircle (p : Ptr) (ancestors : List Ptr) : Quiet (refuseCircle p ancestors) := by
  induction ancestors with
  | nil => exact quiet_pure ()
  | cons ancestor rest ih =>
    refine quiet_bind quiet_isEqual fun same => ?_
    split
    next => exact quiet_bind (quiet_throw _) fun _ => ih
    next => exact ih

section Reading

variable {read : Budget -> Ptr -> LinkM (Snapshot × Budget)} (quiet : ∀ b p, Quiet (read b p))
include quiet

theorem quiet_readItems (list : Ptr) (count index : Nat) (b : Budget) : Quiet (readItems read list count index b) := by
  induction count generalizing index b with
  | zero => exact quiet_pure _
  | succ count ih =>
    refine quiet_bind (quiet_getProp list _) fun child => quiet_bind (quiet_consume child (quiet b)) fun x => ?_
    exact quiet_bind (ih (index + 1) x.2) fun _ => quiet_pure _

theorem quiet_readFields (object : Ptr) (keys : List String) (b : Budget) : Quiet (readFields read object keys b) := by
  induction keys generalizing b with
  | nil => exact quiet_pure _
  | cons key rest ih =>
    refine quiet_bind (quiet_charged b _) fun b => quiet_bind (quiet_getProp object key) fun child => ?_
    exact quiet_bind (quiet_consume child (quiet b)) fun x => quiet_bind (ih x.2) fun _ => quiet_pure _

end Reading

theorem quiet_read (levels : Nat) (ancestors : List Ptr) (b : Budget) (p : Ptr) : Quiet (read levels ancestors b p) := by
  induction levels generalizing ancestors b p with
  | zero => exact quiet_throw _
  | succ levels ih =>
    refine quiet_bind (quiet_entered b) fun b => quiet_bind (quiet_kind p) fun kind => ?_
    cases kind with
    | undefined | null => exact quiet_pure _
    | boolean =>
      refine quiet_bind (quiet_charged b _) fun b => quiet_bind (quiet_boolean true) fun yes => ?_
      exact quiet_bind quiet_isEqual fun _ => quiet_pure _
    | number => exact quiet_bind (quiet_charged b _) fun _ => quiet_bind (quiet_number p) fun _ => quiet_pure _
    | string => exact quiet_bind (quiet_toText p) fun _ => quiet_bind (quiet_charged b _) fun _ => quiet_pure _
    | bytes => exact quiet_bind (quiet_bytes p) fun _ => quiet_bind (quiet_charged b _) fun _ => quiet_pure _
    | error =>
      refine quiet_bind (quiet_getProp p _) fun text => quiet_bind (quiet_consume text quiet_toText) fun message => ?_
      exact quiet_bind (quiet_charged b _) fun _ => quiet_pure _
    | array =>
      refine quiet_bind (quiet_refuseCircle p ancestors) fun _ => quiet_bind (quiet_length p) fun count => ?_
      refine quiet_bind (quiet_charged b _) fun b => ?_
      exact quiet_bind (quiet_readItems (fun b child => ih _ b child) p count 0 b) fun _ => quiet_pure _
    | object =>
      refine quiet_bind (quiet_refuseCircle p ancestors) fun _ => quiet_bind (quiet_ownKeys p) fun keys => ?_
      refine quiet_bind (quiet_charged b _) fun b => ?_
      exact quiet_bind (quiet_readFields (fun b child => ih _ b child) p keys b) fun _ => quiet_pure _
    | function | promise => exact quiet_throw _

theorem quiet_fromEngine (maxDepth maxBytes : Nat) (p : Ptr) : Quiet (fromEngine maxDepth maxBytes p) :=
  quiet_bind (quiet_read _ _ _ p) fun _ => quiet_pure _

end Conversion

end ScriptHost
