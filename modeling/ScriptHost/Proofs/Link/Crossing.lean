import ScriptHost.Proofs.Engine.Affairs
import ScriptHost.Proofs.Engine.Calls
import ScriptHost.Proofs.Link.Properties

set_option autoImplicit false

/-!
What becomes of texts and keys that cross the link.

A text comes back cut at its first NUL, and a key names the property of what comes before that. So exactly
the texts without a NUL come back as they were, and keys without one name different properties. None of
this needs the engine to be calm: it is about calls that succeed.
-/

namespace ScriptHost

namespace Text

theorem untilNul_eq_self_iff (s : String) : untilNul s = s ↔ NulFree s := by
  refine ⟨fun same => ?_, untilNul_of_nulFree⟩
  rw [<- same]
  intro member
  rw [untilNul, String.toList_ofList] at member
  simpa using List.mem_takeWhile_imp member

theorem untilNul_idem (s : String) : untilNul (untilNul s) = untilNul s := by
  rw [untilNul_eq_self_iff, NulFree, untilNul, String.toList_ofList]
  intro member
  simpa using List.mem_takeWhile_imp member

end Text

namespace Link

variable {α : Type} {l l' mid : Link} {p q k v : Ptr} {s key : String} {r : Request} {a : α}

section Succeeding

variable (clear : l.faults = Table.empty)
include clear

/-- A call that answered with zero is a failure, whatever there is to explain it. -/
theorem value_ok {c : r.isReserved = false} {s : Engine} (done : outcome (Engine.perform r) l.engine = (.ok (.ofWord q), s))
    (got : answered (value r c) l = (.ok p, l')) : p = q ∧ q ≠ 0 ∧ l' = l.withEngine s := by
  by_cases zero : q = 0
  next =>
    rw [answered_value_zero clear (zero ▸ done)] at got
    split at got <;> cases got
  next =>
    rw [answered_value clear done zero] at got
    cases got
    exact ⟨rfl, zero, rfl⟩

theorem value_made (ok : l.memory.WellFormed) {c : r.isReserved = false} {w : Value} (unheld : w.children = [])
    (done : outcome (Engine.perform r) l.engine = outcome (Engine.insert w) l.engine)
    (got : answered (value r c) l = (.ok p, l')) : Made l w 0 p l' ∧ l.engine.heap.insert w = (p, l'.engine.heap) := by
  rw [Engine.outcome_insert] at done
  rcases Heap.insert_plants l.engine.heap w with ⟨q, n, later, big, absent, inserted⟩ | ⟨full, refused⟩
  · rw [inserted] at done
    obtain ⟨rfl, -, rfl⟩ := value_ok clear done got
    exact ⟨⟨big, absent, ⟨_, n, l.memory, later, .refl ok, rfl⟩, rfl, Nat.le_refl _⟩, inserted⟩
  · rw [refused, unheld, Heap.releaseAll_nil] at done
    obtain ⟨-, some, -⟩ := value_ok clear done got
    exact absurd rfl some

theorem withCString_ok (ok : l.memory.WellFormed) {act : Addr -> LinkM α} (got : answered (withCString s act) l = (.ok a, l')) :
    l.Spells s ∧ ∃ inner, answered (act (UInt32.ofNat l.memory.next)) (l.spelled s) = (.ok a, inner) ∧
      l' = inner.withMemory (inner.memory.free (UInt32.ofNat l.memory.next)) := by
  by_cases fits : l.Spells s
  next =>
    rw [answered_withCString_fits clear ok fits] at got
    have answer := congrArg Prod.fst got
    have left := congrArg Prod.snd got
    exact ⟨fits, (answered (act (UInt32.ofNat l.memory.next)) (l.spelled s)).2, Prod.ext answer rfl, left.symm⟩
  next =>
    rw [answered_withCString_refused clear fits] at got
    cases got

theorem newString_ok (ok : l.memory.WellFormed) (got : answered (newString s) l = (.ok p, l')) :
    ∃ bytes, Made l (.string (Text.untilNul s)) bytes p l' ∧
      l.engine.heap.newString (Text.untilNul s) = (p, l'.engine.heap) := by
  obtain ⟨fits, inner, answer, rfl⟩ := withCString_ok clear ok got
  have read := Memory.topped_readCString (Memory.toNat_next ok) s
  have spelled : (l.spelled s).memory.WellFormed := (Changed.scratched ok fits (Memory.terminated s)).atop.wellFormed
  obtain ⟨made, inserted⟩ := value_made (l := l.spelled s) clear spelled (w := .string (Text.untilNul s)) rfl (by
    simp only [Engine.perform, outcome_bind, Engine.outcome_readMemory, Link.spelled, withMemory, withEngine, read]) answer
  exact ⟨_, made.unscratched ok fits, inserted⟩

theorem toText_done (ok : l.memory.WellFormed) {t : String} (got : answered (toText p) l = (.ok t, l')) :
    t = Text.untilNul (l.engine.heap.display p) ∧ l' = l.respelled (l.engine.heap.display p) := by
  by_cases fits : l.Spells (l.engine.heap.display p)
  next =>
    rw [toText_fits clear ok fits] at got
    cases got
    exact ⟨rfl, rfl⟩
  next =>
    have refused := outcome_toCString_refused (l := l) (p := p) fits
    simp only [toText, answered_bind] at got
    cases asked : answered (value (.toCString p)) l with
    | mk answer inner =>
      cases answer with
      | error e =>
        rw [asked] at got
        cases got
      | ok block =>
        obtain ⟨-, some, -⟩ := value_ok clear refused asked
        exact absurd rfl some

theorem toText_ok (ok : l.memory.WellFormed) {t : String} (got : answered (toText p) l = (.ok t, l')) :
    t = Text.untilNul (l.engine.heap.display p) :=
  (toText_done clear ok got).1

theorem withKey_ok {act : Ptr -> LinkM α} (got : answered (withKey key act) l = (.ok a, l')) :
    ∃ k mid inner, answered (newString key) l = (.ok k, mid) ∧ answered (act k) mid = (.ok a, inner) ∧
      l' = inner.released k := by
  simp only [withKey, answered_bind, answered_attempt, answered_ofExcept] at got
  cases named : answered (newString key) l with
  | mk answer mid =>
    cases answer with
    | error e =>
      rw [named] at got
      cases got
    | ok k =>
      have clear' : mid.faults = Table.empty := by
        have faultless := answered_faultless (newString key) clear
        rwa [named] at faultless
      cases acted : answered (act k) mid with
      | mk answer inner =>
        have clear'' : inner.faults = Table.empty := by
          have faultless := answered_faultless (act k) clear'
          rwa [acted] at faultless
        simp only [named, acted, answered_free_value clear''] at got
        obtain ⟨rfl, rfl⟩ := Prod.mk.inj got
        exact ⟨k, mid, inner, rfl, acted, rfl⟩

variable (ok : l.memory.WellFormed)
include ok

theorem getProp_ok (counted : Heap.Counted l.cells) {held : Value} (there : l.engine.heap.get? p = some held)
    (found : l.engine.heap.lookup p (Text.untilNul key) = .ok (.existing v))
    (got : answered (getProp p key) l = (.ok q, l')) : q = v ∧ Lent l v l' := by
  obtain ⟨k, mid, inner, named, asked, rfl⟩ := withKey_ok clear got
  obtain ⟨bytes, made, -⟩ := newString_ok clear ok named
  have clear' : mid.faults = Table.empty := made.changed.faults.trans clear
  obtain ⟨rfl, -, rfl⟩ := value_ok clear' (getProp_outcome made there found) asked
  exact ⟨rfl, lent_of_made counted made⟩

/-- What is set under the name of the key is set in an engine that has the key as one value more. -/
theorem setProp_ok (got : answered (setProp p key v) l = (.ok (), l')) :
    ∃ k mid bytes h, Made l (.string (Text.untilNul key)) bytes k mid ∧
      l.engine.heap.newString (Text.untilNul key) = (k, mid.engine.heap) ∧
      mid.engine.heap.setProp p (Text.untilNul key) v = .ok h ∧ l'.engine.heap = h.release k ∧
      l'.faults = Table.empty ∧ l'.memory = mid.memory := by
  simp only [setProp, answered_bind] at got
  cases stored : answered (withKey key fun k => int (.setProp p k v)) l with
  | mk answer after =>
    cases answer with
    | error e =>
      rw [stored] at got
      cases got
    | ok status =>
      obtain ⟨k, mid, inner, named, asked, rfl⟩ := withKey_ok clear stored
      obtain ⟨bytes, made, inserted⟩ := newString_ok clear ok named
      have clear' : mid.faults = Table.empty := made.changed.faults.trans clear
      have name : mid.engine.heap.display k = Text.untilNul key := Heap.display_string made.big made.get?_new
      cases put : mid.engine.heap.setProp p (Text.untilNul key) v with
      | ok h =>
        have done : outcome (Engine.perform (.setProp p k v)) mid.engine = (.ok (.i32 1), { mid.engine with heap := h }) := by
          simp only [Engine.perform, Engine.setProp, Engine.attempt, outcome_bind, outcome_get, name, put, Except.map,
            outcome_modify, outcome_pure]
          rfl
        obtain ⟨status, rfl⟩ := Prod.mk.inj ((answered_int clear' done).symm.trans asked)
        obtain rfl := Except.ok.inj status
        rw [stored] at got
        obtain ⟨-, rfl⟩ := Prod.mk.inj got
        exact ⟨k, mid, bytes, h, made, inserted, put, rfl, clear', rfl⟩
      | error message =>
        have done : outcome (Engine.perform (.setProp p k v)) mid.engine =
            (.ok (.i32 0), { mid.engine with heap := mid.engine.heap.raiseMessage message }) := by
          simp only [Engine.perform, Engine.setProp, Engine.attempt, outcome_bind, outcome_get, name, put, Except.map]
          rfl
        obtain ⟨status, rfl⟩ := Prod.mk.inj ((answered_int clear' done).symm.trans asked)
        obtain rfl := Except.ok.inj status
        rw [stored] at got
        have refused : (0 : Int32) ≠ 1 := by decide
        simp only [refused, if_false, answered_bind, answered_throw] at got
        split at got <;> cases got

theorem newError_ok (counted : Heap.Counted l.cells) (got : answered (newError s) l = (.ok p, l')) :
    ∃ text, l'.engine.heap.get? p = some (Heap.errorValue text) ∧
      l'.engine.heap.get? text = some (.string (Text.untilNul s)) ∧
      l'.faults = Table.empty ∧ l'.memory.WellFormed ∧ Heap.Counted l'.cells := by
  obtain ⟨fits, inner, answer, rfl⟩ := withCString_ok clear ok got
  have read := Memory.topped_readCString (Memory.toNat_next ok) s
  have scratched := Changed.scratched ok fits (Memory.terminated s)
  have done : outcome (Engine.perform (.newError (UInt32.ofNat l.memory.next))) (l.spelled s).engine =
      (.ok (.ofWord (l.engine.heap.newError (Text.untilNul s)).1),
        { (l.spelled s).engine with heap := (l.engine.heap.newError (Text.untilNul s)).2 }) := by
    simp only [Engine.perform, outcome_bind, Engine.outcome_readMemory, Link.spelled, withMemory, withEngine, read,
      Engine.outcome_onHeap, outcome_pure]
  obtain ⟨rfl, some, rfl⟩ := value_ok (l := l.spelled s) clear done answer
  rcases Heap.newError_plants counted (Text.untilNul s) with
    ⟨p, text, n, later, big, big', absent, absent', apart, made⟩ | ⟨-, n, -, made⟩
  · obtain ⟨found, there⟩ := Heap.withError_get? l.cells (Text.untilNul s) apart
    rw [made]
    refine ⟨text, Heap.get?_eq_some.2 ⟨_, found, rfl⟩, Heap.get?_eq_some.2 ⟨_, there, rfl⟩, clear, ?_, ?_⟩
    · exact (scratched.free (Memory.toNat_next ok)).atop.wellFormed
    · exact (counted.set big' (Nat.le_refl 1)).set big (Nat.le_refl 1)
  · rw [made] at some
    exact absurd rfl some

end Succeeding

/-- Texts and keys arrive cut at their first NUL, and are otherwise kept. -/
structure Crosses (l : Link) (outside : List Ptr) : Prop where
  whole : ∀ s, Text.untilNul s = s ↔ Text.NulFree s
  texts : ∀ s p l', answered (newString s) l = (.ok p, l') ->
    (l'.Spells (Text.untilNul s) -> ∃ l'', answered (toText p) l' = (.ok (Text.untilNul s), l'')) ∧
    ∀ t l'', answered (toText p) l' = (.ok t, l'') -> t = Text.untilNul s
  messages : ∀ s p l', answered (newError s) l = (.ok p, l') ->
    ∀ q mid, answered (getProp p Heap.messageKey) l' = (.ok q, mid) ->
    ∀ t l'', answered (toText q) mid = (.ok t, l'') -> t = Text.untilNul s
  keys : ∀ p cls props, p ∈ outside -> l.engine.heap.get? p = some (.object cls props) ->
    ∀ key v l', answered (setProp p key v) l = (.ok (), l') ->
    ∀ other q mid, answered (getProp p other) l = (.ok q, mid) ->
    ∀ q' l'', answered (getProp p other) l' = (.ok q', l'') ->
      q' = if Text.untilNul other = Text.untilNul key then v else q

variable {outside : List Ptr}

theorem counted_of_accounted {h : Heap} (a : h.Accounted 0 outside) : Heap.Counted h.cells :=
  fun p c found => ((a.balanced (.inl rfl)).counted p c found).imp_right And.left

theorem big_of_held (counted : Heap.Counted l.cells) {held : Value} (found : l.engine.heap.get? p = some held) :
    Ptr.firstCounted ≤ p := by
  obtain ⟨c, here, -⟩ := Heap.get?_eq_some.1 found
  exact (counted p c here).1

theorem toText_string (clear : l.faults = Table.empty) (ok : l.memory.WellFormed) (counted : Heap.Counted l.cells)
    (found : l.engine.heap.get? p = some (.string (Text.untilNul s))) :
    (l.Spells (Text.untilNul s) -> ∃ l', answered (toText p) l = (.ok (Text.untilNul s), l')) ∧
      ∀ t l', answered (toText p) l = (.ok t, l') -> t = Text.untilNul s := by
  have display := Heap.display_string (big_of_held counted found) found
  refine ⟨fun fits => ?_, fun t l' got => ?_⟩
  · rw [<- display] at fits
    have read := toText_fits clear ok fits
    rw [display, Text.untilNul_idem] at read
    exact ⟨_, read⟩
  · rw [toText_ok clear ok got, display, Text.untilNul_idem]

/-- The object that the host holds is still there, with the property set. -/
theorem held_setProp (clear : l.faults = Table.empty) (sound : Engine.Sound 0 outside l.engine) (owned : p ∈ outside)
    {cls : ObjectClass} {props : Table String Ptr} (there : l.engine.heap.get? p = some (.object cls props))
    (got : answered (setProp p key v) l = (.ok (), l')) :
    l'.engine.heap.get? p = some (.object cls (props.set (Text.untilNul key) v)) ∧ l'.faults = Table.empty ∧
      Engine.Sound 0 outside l'.engine := by
  have counted := counted_of_accounted sound.heap
  obtain ⟨k, mid, bytes, h, made, inserted, put, left, clear', memory⟩ := setProp_ok clear sound.memory got
  have a : mid.engine.heap.Accounted 0 (k :: outside) := by
    have a := sound.heap.newString (Text.untilNul key)
    rwa [inserted] at a
  have a' : l'.engine.heap.Accounted 0 outside := left ▸ (a.setProp put).release
  have ok : l'.memory.WellFormed := memory ▸ made.changed.atop.wellFormed
  refine ⟨?_, clear', ok, a'⟩
  obtain small | ⟨c, here⟩ | lost := a'.names owned (.inl rfl)
  · exact absurd (big_of_held counted there) (UInt32.not_le.2 small)
  · have after : l'.engine.heap.get? p = some c.value := Heap.get?_eq_some.2 ⟨c, here, rfl⟩
    have stored : h.get? p = some c.value := Heap.get?_releaseAll (left ▸ after)
    have held := made.get?_old there
    unfold Heap.setProp at put
    rw [held] at put
    split at put
    next => cases put
    next =>
      obtain rfl := Except.ok.inj put
      have kept := Heap.get?_releaseAll stored
      rw [Heap.get?_retain] at kept
      obtain ⟨d, found, value⟩ := Heap.get?_eq_some.1 held
      have now : (mid.engine.heap.setValue p (.object cls (props.set (Text.untilNul key) v))).get? p =
          some (.object cls (props.set (Text.untilNul key) v)) := by
        simp [Heap.get?, Heap.setValue, found]
      rw [after, <- kept, now]
  · exact absurd lost (Nat.not_lt_zero _)

theorem lookup_object {h : Heap} {cls : ObjectClass} {props : Table String Ptr} (found : h.get? p = some (.object cls props))
    (key : String) : h.lookup p key = .ok (.existing ((props.get? key).getD Ptr.undefined)) := by
  rw [Heap.lookup, found]

theorem crosses (clear : l.faults = Table.empty) (sound : Engine.Sound 0 outside l.engine) : Crosses l outside := by
  have counted := counted_of_accounted sound.heap
  constructor
  case whole => exact Text.untilNul_eq_self_iff
  case texts =>
    intro s p l' got
    obtain ⟨bytes, made, -⟩ := newString_ok clear sound.memory got
    have there : Heap.Counted l'.cells := made.cells ▸ counted.set made.big (Nat.le_refl 1)
    exact toText_string (made.changed.faults.trans clear) made.changed.atop.wellFormed there made.get?_new
  case messages =>
    intro s p l' made q mid got t l'' read
    obtain ⟨text, error, message, clear', ok', counted'⟩ := newError_ok clear sound.memory counted made
    have found : l'.engine.heap.lookup p (Text.untilNul Heap.messageKey) = .ok (.existing text) :=
      lookup_object error _
    obtain ⟨rfl, lent⟩ := getProp_ok clear' ok' counted' error found got
    have kept := lent.kept _ _ message
    exact (toText_string (lent.changed.faults.trans clear') lent.changed.atop.wellFormed lent.counted kept).2 t l'' read
  case keys =>
    intro p cls props owned there key v l' stored other q mid before q' l'' after
    obtain ⟨held, clear', sound'⟩ := held_setProp clear sound owned there stored
    obtain ⟨rfl, -⟩ := getProp_ok clear sound.memory counted there (lookup_object there _) before
    obtain ⟨rfl, -⟩ := getProp_ok clear' sound'.memory (counted_of_accounted sound'.heap) held (lookup_object held _) after
    by_cases same : Text.untilNul other = Text.untilNul key
    next => simp [same]
    next => simp [same, Ne.symm same]

/-- A link on which the host holds one object. -/
def shelf : Link :=
  { Link.empty with engine := { Engine.empty with heap := (Heap.empty.insert (.object .plain Table.empty)).2 } }

theorem shelf_sound : Engine.Sound 0 [16] shelf.engine := by
  have a : Heap.Accounted 0 ((Value.object .plain Table.empty).children ++ []) Heap.empty := Engine.sound_empty.heap
  exact ⟨Memory.wellFormed_empty, a.insert⟩

/-- What a text is when it is read back. -/
def echo (l : Link) (s : String) : Option String :=
  (answered (do toText (<- newString s)) l).1.toOption

/-- What the property `other` is before and after `key` is set to true. -/
def beside (l : Link) (key other : String) : Option (Ptr × Ptr) :=
  Except.toOption <| Prod.fst <| answered (do
    let before <- getProp 16 other
    setProp 16 key Ptr.yes
    pure (before, <- getProp 16 other)) l

theorem shelf_crosses :
    Crosses shelf [16] ∧ shelf.echo "text" = some "text" ∧ shelf.beside "left" "right" = some (Ptr.undefined, Ptr.undefined) :=
  ⟨crosses rfl shelf_sound, by decide +kernel, by decide +kernel⟩

/-- A text with a NUL comes back as another one, and a key with one sets the property of another key. -/
theorem shelf_alters :
    ¬(∀ s t, shelf.echo s = some t -> t = s) ∧
      ¬∀ key other before after, key ≠ other -> shelf.beside key other = some (before, after) -> after = before := by
  have cut : shelf.echo "a\x00b" = some "a" := by decide +kernel
  have hit : shelf.beside "a\x00b" "a\x00c" = some (Ptr.undefined, Ptr.yes) := by decide +kernel
  refine ⟨fun kept => ?_, fun kept => ?_⟩
  · exact absurd (kept _ _ cut) (by decide)
  · exact absurd (kept _ _ _ _ (by decide) hit) (by decide)

end Link

end ScriptHost
