import ScriptHost.Proofs.Link.Answers

set_option autoImplicit false

/-!
Asking about values, and counting the references to them, does nothing to promises and jobs.
-/

namespace ScriptHost

namespace Ask

def Quiet (q : Ask) : Prop :=
  ∀ l : Link, l.engine.heap.Forgets (q.perform.run l).2.engine.heap

variable {p a b : Ptr} {op : Equality}

theorem quiet_of_forgetful {α : Type} {name : String} {answer : Replacement -> Except Error α} {act : EngineM α}
    (less : Engine.Forgetful act) (l : Link) :
    l.engine.heap.Forgets ((Link.unlessFaulty name answer act).run l).2.engine.heap :=
  Link.unlessFaulty_leads (R := fun s t => s.heap.Forgets t.heap) (fun s => .refl s.heap) less

theorem quiet_request {r : Request} (common : r.isReserved = false) (apart : r.stirring = false) :
    (request r common).Quiet :=
  fun l => quiet_of_forgetful (Engine.perform_forgetful r apart) l

theorem quiet_readCString (text : Addr) : (readCString text).Quiet :=
  fun l => quiet_of_forgetful (Engine.forgetful_readMemory _) l

theorem quiet_allocate (size : Nat) : (allocate size).Quiet := fun l =>
  quiet_of_forgetful (fun s => Heap.Forgets.of_eq (congrArg Heap.affairs (newBlock_heap size s))) l

theorem quiet_readBytes (a : Addr) (count : Nat) : (readBytes a count).Quiet :=
  fun l => quiet_of_forgetful (Engine.forgetful_readMemory _) l

theorem quiet_writeBytes (a : Addr) (bytes : ByteArray) : (writeBytes a bytes).Quiet :=
  fun l => quiet_of_forgetful (Engine.forgetful_onMemory _) l

theorem quiet_free (a : Addr) : (free a).Quiet :=
  fun l => .refl l.engine.heap

end Ask

namespace Link

open Dialogue

variable {α : Type} {p a b : Ptr} {op : Equality}

def Quiet (act : LinkM α) : Prop :=
  act.run.Only Ask.Quiet

theorem quiet_pure (a : α) : Quiet (pure a) :=
  trivial

theorem quiet_throw (e : Error) : Quiet (throw e : LinkM α) :=
  trivial

theorem quiet_bind {β : Type} {act : LinkM α} {f : α -> LinkM β} (first : Quiet act)
    (rest : ∀ a, Quiet (f a)) : Quiet (act >>= f) :=
  only_bindExcept first rest

theorem quiet_attempt {act : LinkM α} (quiet : Quiet act) : Quiet (attempt act) :=
  only_lift quiet

theorem quiet_ofExcept (r : Except Error α) : Quiet (ofExcept r) := by
  cases r with
  | ok a => exact quiet_pure a
  | error e => exact quiet_throw e

theorem quiet_asked {r : Request} (common : r.isReserved = false) (apart : r.stirring = false) :
    Quiet (request r common) :=
  only_question (Ask.quiet_request common apart)

theorem quiet_word {r : Request} (common : r.isReserved = false) (apart : r.stirring = false) :
    Quiet (word r common) :=
  quiet_bind (quiet_asked common apart) fun _ => quiet_ofExcept _

theorem quiet_int {r : Request} (common : r.isReserved = false) (apart : r.stirring = false) :
    Quiet (int r common) := by
  refine quiet_bind (quiet_asked common apart) fun s => ?_
  split
  next => exact quiet_pure _
  next => exact quiet_throw _

theorem quiet_freeValue (p : Ptr) : Quiet (freeValue p) :=
  quiet_bind (quiet_attempt (quiet_asked rfl rfl)) fun _ => quiet_pure _

theorem quiet_takeLastError : Quiet takeLastError :=
  quiet_bind (quiet_word rfl rfl) fun _ => quiet_pure _

theorem quiet_readText (block : Addr) : Quiet (readText block) := by
  refine quiet_bind (quiet_attempt (only_question (Ask.quiet_readCString block))) fun text => ?_
  exact quiet_bind (quiet_asked rfl rfl) fun _ => quiet_ofExcept text

theorem quiet_failureWithin (depth : Nat) (operation : String) : Quiet (failureWithin depth operation) := by
  induction depth generalizing operation with
  | zero => exact quiet_pure _
  | succ depth ih =>
    refine quiet_bind (quiet_attempt quiet_takeLastError) fun taken => ?_
    split
    next => exact quiet_pure _
    next => exact quiet_pure _
    next exception =>
      refine quiet_bind (quiet_attempt (quiet_bind (quiet_word rfl rfl) fun block => ?_))
        fun text => quiet_bind (quiet_freeValue exception) fun _ => quiet_pure _
      split
      next => exact quiet_bind (ih _) fun e => quiet_throw e
      next => exact quiet_readText block

theorem quiet_value {r : Request} (common : r.isReserved = false) (apart : r.stirring = false) :
    Quiet (value r common) := by
  refine quiet_bind (quiet_word common apart) fun p => ?_
  split
  next => exact quiet_bind (quiet_failureWithin 1000 r.name) fun e => quiet_throw e
  next => exact quiet_pure _

theorem quiet_dupValue (p : Ptr) : Quiet (dupValue p) :=
  quiet_value rfl rfl

theorem quiet_isEqual : Quiet (isEqual a b op) :=
  quiet_bind (quiet_int rfl rfl) fun _ => quiet_pure _

section Memory

theorem quiet_allocate (size : Nat) : Quiet (allocate size) := by
  unfold allocate
  split
  next => exact quiet_throw _
  next => exact only_question (Ask.quiet_allocate size)

theorem quiet_free (a : Addr) : Quiet (free a) :=
  only_lift (only_question (Ask.quiet_free a))

theorem quiet_readBytes (a : Addr) (count : Nat) : Quiet (readBytes a count) :=
  only_question (Ask.quiet_readBytes a count)

theorem quiet_writeBytes (a : Addr) (bytes : ByteArray) : Quiet (writeBytes a bytes) :=
  only_question (Ask.quiet_writeBytes a bytes)

theorem quiet_readWord (a : Addr) : Quiet (readWord a) := by
  refine quiet_bind (quiet_readBytes a 4) fun bytes => ?_
  split
  next => exact quiet_pure _
  next => exact quiet_throw _

theorem quiet_readTable (a : Addr) (count : Nat) : Quiet (readTable a count) := by
  unfold readTable
  split
  next => exact quiet_pure _
  next => exact quiet_bind (quiet_readBytes a _) fun _ => quiet_pure _

theorem quiet_writeBlock (size : Nat) (bytes : ByteArray) : Quiet (writeBlock size bytes) := by
  refine quiet_bind (quiet_allocate size) fun block => ?_
  refine quiet_bind (quiet_attempt (quiet_writeBytes block bytes)) fun written => ?_
  split
  next => exact quiet_pure _
  next => exact quiet_bind (quiet_free block) fun _ => quiet_throw _

theorem quiet_withBlock (size : Nat) {act : Addr -> LinkM α} (quiet : ∀ block, Quiet (act block)) :
    Quiet (withBlock size act) := by
  refine quiet_bind (quiet_allocate size) fun block => quiet_bind (quiet_attempt (quiet block)) fun result => ?_
  exact quiet_bind (quiet_free block) fun _ => quiet_ofExcept result

theorem quiet_withCString (s : String) {act : Addr -> LinkM α} (quiet : ∀ block, Quiet (act block)) :
    Quiet (withCString s act) := by
  refine quiet_bind (quiet_writeBlock _ _) fun block => quiet_bind (quiet_attempt (quiet block)) fun result => ?_
  exact quiet_bind (quiet_free block) fun _ => quiet_ofExcept result

end Memory

theorem quiet_confirm {r : Request} (expected : Int32) (common : r.isReserved = false) (apart : r.stirring = false) :
    Quiet (confirm r expected common) := by
  refine quiet_bind (quiet_int common apart) fun n => ?_
  split
  next => exact quiet_pure _
  next => exact quiet_bind (quiet_failureWithin 1000 r.name) fun _ => quiet_throw _

theorem quiet_boolean (b : Bool) : Quiet (boolean b) := by
  cases b <;> exact quiet_value rfl rfl

theorem quiet_number (p : Ptr) : Quiet (number p) := by
  refine quiet_bind (quiet_asked rfl rfl) fun s => ?_
  split
  next => exact quiet_pure _
  next => exact quiet_throw _

theorem quiet_toText (p : Ptr) : Quiet (toText p) :=
  quiet_bind (quiet_value rfl rfl) quiet_readText

theorem quiet_bytes (p : Ptr) : Quiet (bytes p) := by
  refine quiet_withBlock 4 fun out => quiet_bind (quiet_value rfl rfl) fun data => ?_
  have read := quiet_bind (quiet_readWord out) fun count => quiet_readBytes data count.toNat
  exact quiet_bind (quiet_attempt read) fun result => quiet_bind (quiet_free data) fun _ => quiet_ofExcept result

theorem quiet_withKey (key : String) {act : Ptr -> LinkM α} (quiet : ∀ k, Quiet (act k)) : Quiet (withKey key act) := by
  have named : Quiet (newString key) := quiet_withCString key fun _ => quiet_value rfl rfl
  refine quiet_bind named fun k => quiet_bind (quiet_attempt (quiet k)) fun result => ?_
  exact quiet_bind (quiet_freeValue k) fun _ => quiet_ofExcept result

theorem quiet_getProp (object : Ptr) (key : String) : Quiet (getProp object key) :=
  quiet_withKey key fun _ => quiet_value rfl rfl

theorem quiet_freeValues (ps : List Ptr) : Quiet (freeValues ps) := by
  induction ps with
  | nil => exact quiet_pure _
  | cons p rest ih => exact quiet_bind (quiet_freeValue p) fun _ => ih

theorem quiet_texts (ps : List Ptr) : Quiet (texts ps) := by
  induction ps with
  | nil => exact quiet_pure _
  | cons p rest ih => exact quiet_bind (quiet_toText p) fun _ => quiet_bind ih fun _ => quiet_pure _

theorem quiet_ownKeys (object : Ptr) : Quiet (ownKeys object) := by
  have names : Quiet (ownPropertyNames object) := by
    refine quiet_withBlock 8 fun out => quiet_bind (quiet_confirm 0 rfl rfl) fun _ => ?_
    refine quiet_bind (quiet_readWord out) fun table => quiet_bind (quiet_readWord _) fun count => ?_
    refine quiet_bind (quiet_attempt (quiet_readTable table _)) fun names => ?_
    split
    next => exact quiet_bind (quiet_free table) fun _ => quiet_ofExcept names
    next => exact quiet_ofExcept names
  refine quiet_bind names fun names => quiet_bind (quiet_attempt (quiet_texts names)) fun keys => ?_
  exact quiet_bind (quiet_freeValues names) fun _ => quiet_ofExcept keys

theorem quiet_length (p : Ptr) : Quiet (length p) :=
  quiet_withBlock 4 fun out => quiet_bind (quiet_confirm 0 rfl rfl) fun _ =>
    quiet_bind (quiet_readWord out) fun _ => quiet_pure _

theorem quiet_kind (p : Ptr) : Quiet (kind p) := by
  refine quiet_bind (quiet_int rfl rfl) fun tag => ?_
  split
  next => exact quiet_pure _
  next => exact quiet_throw _

theorem quiet_isJobPending : Quiet isJobPending :=
  quiet_bind (quiet_int rfl rfl) fun _ => quiet_pure _

theorem quiet_promiseState (p : Ptr) : Quiet (promiseState p) := by
  refine quiet_bind (quiet_int rfl rfl) fun tag => ?_
  split
  next => exact quiet_pure _
  next => exact quiet_throw _

theorem quiet_promiseResult (p : Ptr) : Quiet (promiseResult p) :=
  quiet_value rfl rfl

theorem quiet_readRejections (table out : Addr) : Quiet (readRejections table out) := by
  refine quiet_bind (quiet_readWord out) fun count => ?_
  split
  next => exact quiet_pure _
  next =>
    refine quiet_bind (quiet_attempt (quiet_readTable table _)) fun words => quiet_bind (quiet_free table) fun _ => ?_
    exact quiet_bind (quiet_ofExcept words) fun _ => quiet_pure _

end Link

namespace OwnerM

variable {R : Link -> Link -> Prop}

theorem leads_takeRejections (way : Way R) (ask : ∀ q : Ask, q.Quiet -> ∀ l, R l (q.perform.run l).2)
    (meet : ∀ out l, R l ((Link.meet (.takeRejectionEvents out)).run l).2) : Leads R takeRejections := by
  have quiet {α : Type} {act : LinkM α} (quiet : Link.Quiet act) : Leads R (common act) :=
    Dialogue.through_leads way.refl way.trans ask quiet
  have taken (out : Addr) : Leads R (takeTable out) := by
    refine way.bind (fun l => meet out l) fun s => way.bind (quiet (Link.quiet_ofExcept _)) fun table => ?_
    exact quiet (Link.quiet_readRejections table out)
  refine way.bind (quiet (Link.quiet_allocate 4)) fun out => way.bind (fun l => taken out l) fun rejections => ?_
  exact way.bind (quiet (Link.quiet_free out)) fun _ => quiet (Link.quiet_ofExcept rejections)

theorem Law.takeRejections (law : Law R) : Leads R OwnerM.takeRejections :=
  leads_takeRejections law.toWay (fun q _ => law.ask q) fun _ => law.meet _

/-- Records of rejections go, and with what they refer to perhaps some promises, but no other promise comes or
changes. -/
theorem takeRejections_promises {p : Ptr} {record : PromiseRecord} {l : Link}
    (found : (outcome OwnerM.takeRejections l).2.engine.heap.promise? p = some record) :
    l.engine.heap.promise? p = some record := by
  have way : Way fun l l' : Link => l'.engine.heap.promises.entries.Sublist l.engine.heap.promises.entries :=
    ⟨fun _ => .refl _, fun first second => second.trans first⟩
  have less := leads_takeRejections way (fun q quiet l => (quiet l).promises) fun out l =>
    Link.unlessFaulty_leads (R := fun s t => t.heap.promises.entries.Sublist s.heap.promises.entries) (fun _ => .refl _)
      fun s => (Engine.takeRejectionEvents_forgets out s).promises
  rw [← Heap.get?_promises] at found ⊢
  exact Table.get?_of_sublist (less l) found

/-- What has happened to promises is not forgotten with the records of it. -/
theorem takeRejections_history (l : Link) :
    (outcome OwnerM.takeRejections l).2.engine.heap.history = l.engine.heap.history := by
  have way : Way fun l l' : Link => l'.engine.heap.history = l.engine.heap.history :=
    ⟨fun _ => rfl, fun first second => second.trans first⟩
  exact leads_takeRejections way (fun q quiet l => (quiet l).history) (fun out l =>
    Link.unlessFaulty_leads (R := fun s t => t.heap.history = s.heap.history) (fun _ => rfl)
      fun s => (Engine.takeRejectionEvents_forgets out s).history) l

end OwnerM

end ScriptHost
