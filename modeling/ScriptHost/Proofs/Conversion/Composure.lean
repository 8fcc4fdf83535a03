import ScriptHost.Conversion
import ScriptHost.Proofs.Link.Composed

set_option autoImplicit false

/-!
Conversions leave the engine composed, however far they get.
-/

namespace ScriptHost

namespace Conversion

open Link

variable {α : Type}

theorem composed_entered (b : Budget) : Composed (some 29) b.entered := by
  unfold Budget.entered
  split
  next => exact composed_pure _
  next => exact composed_throw _

theorem composed_charged (b : Budget) (n : Nat) : Composed (some 29) (b.charged n) := by
  unfold Budget.charged
  split
  next => exact composed_pure _
  next => exact composed_throw _

theorem composed_constant {p : LinkM Ptr} (composed : Composed none p) : Composed (some 29) (constant p) :=
  composed.anyhow.bind fun q => (composed_dupValue q).within (by decide)

theorem composed_store (container : Ptr) (key : String) (child : Ptr) :
    Composed (some 29) (store container key child) :=
  ((composed_setProp container key child).within (by decide)).attempt.bind fun result =>
    (composed_freeValue child).anyhow.bind fun _ => composed_ofExcept result

theorem composed_keepFilled {container : Ptr} {fill : LinkM α} (composed : Composed (some 29) fill) :
    Composed (some 29) (keepFilled container fill) := by
  refine composed.attempt.bind fun result => ?_
  cases result with
  | ok a => exact composed_pure a
  | error e => exact (composed_freeValue container).anyhow.bind fun _ => composed_throw e

theorem composed_charged_bind (b : Budget) (n : Nat) {f : Budget -> LinkM α} (rest : ∀ b, Composed (some 29) (f b)) :
    Composed (some 29) (b.entered >>= fun b => b.charged n >>= f) :=
  (composed_entered b).bind fun b => (composed_charged b n).bind rest

mutual

theorem composed_build (b : Budget) (v : Snapshot) : Composed (some 29) (build b v) := by
  have constant {p : LinkM Ptr} (composed : Composed none p) :
      Composed (some 29) (b.entered >>= fun b => constant p >>= fun q => pure (q, b.leave)) :=
    (composed_entered b).bind fun _ => (composed_constant composed).bind fun _ => composed_pure _
  have charged (n : Nat) {p : LinkM Ptr} (composed : Composed none p) :
      Composed (some 29) (b.entered >>= fun b => b.charged n >>= fun b => p >>= fun q => pure (q, b.leave)) :=
    composed_charged_bind b n fun _ => composed.anyhow.bind fun _ => composed_pure _
  cases v with
  | undefined => exact constant (composed_value_mute (r := .getUndefined) trivial)
  | null => exact constant (composed_value_mute (r := .getNull) trivial)
  | bool x => exact constant (composed_boolean x)
  | int n => exact charged _ (composed_newNumber _)
  | float x => exact charged _ (composed_newNumber x)
  | text s => exact charged _ (composed_newString s)
  | bytes x => exact charged _ (composed_newBytes x)
  | error message => exact charged _ (composed_newError message)
  | list items =>
    refine composed_charged_bind b _ fun b => ?_
    refine (composed_value_mute (r := .newArray) trivial).anyhow.bind fun list => ?_
    exact (composed_keepFilled (composed_buildItems b list 0 items)).bind fun _ => composed_pure _
  | record fields =>
    refine composed_charged_bind b _ fun b => ?_
    refine (composed_value_mute (r := .newObject) trivial).anyhow.bind fun object => ?_
    exact (composed_keepFilled (composed_buildFields b object fields)).bind fun _ => composed_pure _

theorem composed_buildItems (b : Budget) (list : Ptr) (index : Nat) (items : List Snapshot) :
    Composed (some 29) (buildItems b list index items) := by
  cases items with
  | nil => exact composed_pure b
  | cons item rest =>
    refine (composed_build b item).bind fun x => ?_
    exact (composed_store list _ x.1).bind fun _ => composed_buildItems x.2 list (index + 1) rest

theorem composed_buildFields (b : Budget) (object : Ptr) (fields : List (String × Snapshot)) :
    Composed (some 29) (buildFields b object fields) := by
  cases fields with
  | nil => exact composed_pure b
  | cons field rest =>
    refine (composed_charged b _).bind fun b => (composed_build b field.2).bind fun x => ?_
    exact (composed_store object field.1 x.1).bind fun _ => composed_buildFields x.2 object rest

end

theorem composed_toEngine (maxDepth maxBytes : Nat) (v : Snapshot) :
    Composed (some 29) (toEngine maxDepth maxBytes v) :=
  (composed_build _ v).bind fun _ => composed_pure _

theorem composed_consume {child : Ptr} {read : Ptr -> LinkM α} (composed : Composed (some 29) (read child)) :
    Composed (some 29) (consume child read) :=
  composed.attempt.bind fun result => (composed_freeValue child).anyhow.bind fun _ => composed_ofExcept result

theorem composed_refuseCircle (p : Ptr) (ancestors : List Ptr) : Composed (some 29) (refuseCircle p ancestors) := by
  induction ancestors with
  | nil => exact composed_pure ()
  | cons ancestor rest ih =>
    rw [refuseCircle]
    refine (composed_isEqual ancestor p .sameValue).anyhow.bind fun same => ?_
    split
    next => exact (composed_throw _).bind fun _ => ih
    next => exact ih

section Reading

variable {read : Budget -> Ptr -> LinkM (Snapshot × Budget)} (composed : ∀ b p, Composed (some 29) (read b p))
include composed

theorem composed_readItems (list : Ptr) (count index : Nat) (b : Budget) :
    Composed (some 29) (readItems read list count index b) := by
  induction count generalizing index b with
  | zero => exact composed_pure _
  | succ count ih =>
    refine ((composed_getProp list _).within (by decide)).bind fun child => ?_
    refine (composed_consume (composed b child)).bind fun x => ?_
    exact (ih (index + 1) x.2).bind fun _ => composed_pure _

theorem composed_readFields (object : Ptr) (keys : List String) (b : Budget) :
    Composed (some 29) (readFields read object keys b) := by
  induction keys generalizing b with
  | nil => exact composed_pure _
  | cons key rest ih =>
    refine (composed_charged b _).bind fun b => ?_
    refine ((composed_getProp object key).within (by decide)).bind fun child => ?_
    refine (composed_consume (composed b child)).bind fun x => ?_
    exact (ih x.2).bind fun _ => composed_pure _

end Reading

theorem composed_read (levels : Nat) (ancestors : List Ptr) (b : Budget) (p : Ptr) :
    Composed (some 29) (read levels ancestors b p) := by
  induction levels generalizing ancestors b p with
  | zero => exact composed_throw _
  | succ levels ih =>
    have few : 21 ≤ 29 := by decide
    refine (composed_entered b).bind fun b => (composed_kind p).anyhow.bind fun kind => ?_
    cases kind with
    | undefined | null => exact composed_pure _
    | boolean =>
      refine (composed_charged b _).bind fun b => (composed_boolean true).anyhow.bind fun yes => ?_
      exact (composed_isEqual p yes .strict).anyhow.bind fun _ => composed_pure _
    | number => exact (composed_charged b _).bind fun b => (composed_number p).anyhow.bind fun _ => composed_pure _
    | string =>
      exact ((composed_toText p).within few).bind fun s => (composed_charged b _).bind fun _ => composed_pure _
    | bytes => exact (composed_bytes p).bind fun x => (composed_charged b _).bind fun _ => composed_pure _
    | error =>
      refine ((composed_getProp p _).within few).bind fun text => ?_
      refine (composed_consume ((composed_toText text).within few)).bind fun message => ?_
      exact (composed_charged b _).bind fun _ => composed_pure _
    | array =>
      refine (composed_refuseCircle p ancestors).bind fun _ => (composed_length p).bind fun count => ?_
      refine (composed_charged b _).bind fun b => ?_
      exact (composed_readItems (fun b child => ih _ b child) p count 0 b).bind fun _ => composed_pure _
    | object =>
      refine (composed_refuseCircle p ancestors).bind fun _ => (composed_ownKeys p).bind fun keys => ?_
      refine (composed_charged b _).bind fun b => ?_
      exact (composed_readFields (fun b child => ih _ b child) p keys b).bind fun _ => composed_pure _
    | function | promise => exact composed_throw _

theorem composed_fromEngine (maxDepth maxBytes : Nat) (p : Ptr) : Composed (some 29) (fromEngine maxDepth maxBytes p) :=
  (composed_read _ _ _ p).bind fun _ => composed_pure _

end Conversion

end ScriptHost
