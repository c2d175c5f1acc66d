import MonkeyLang.Proofs.Evaluation.Effects
import MonkeyLang.Proofs.Session
import MonkeyLang.Proofs.Store.Standing

/-!
The chronicle of a session: every making of a value with a number of creation and every value of an
expression, in the order of time. It tells where the values come from that come up later.
-/

namespace MonkeyLang

/-- What a chronicle tells of, with the frames as they are at the time. -/
inductive Event
  /-- A value with a number of creation is made. -/
  | made (store : Store) (value : Value)
  /-- An expression has a value. -/
  | seen (store : Store) (value : Value)

namespace Event

def made? : Event → Option Value
  | made _ value => some value
  | seen .. => none

/-- The values that are bound at the time of an event. -/
def bound : Event → List Value
  | made store _ | seen store _ => store.values

/-- The value that is made or comes up, and those that are bound then. -/
def values : Event → List Value
  | made store value | seen store value => value :: store.values

end Event

/-- What has happened, in the order of time. -/
structure History where
  events : List Event

namespace History

def empty : History := ⟨[]⟩

def add (history : History) (event : Event) : History := ⟨history.events ++ [event]⟩

/-- What had happened before an event. -/
def before (history : History) (i : Nat) : History := ⟨history.events.take i⟩

/-- The values that have been made, in the order of their making. -/
def births (history : History) : List Value := history.events.filterMap Event.made?

instance : Preorder History where
  le a b := a.events <+: b.events
  le_refl _ := List.prefix_rfl
  le_trans _ _ _ h h' := h.trans h'

end History

/-- Runs of which a chronicle is kept. -/
abbrev Chronicled : Type → Type := EStateM Abort (Machine × History)

instance : MonadLift Run Chronicled where
  monadLift run state := match run state.1 with
    | .ok a after => .ok a (after, state.2)
    | .error cause after => .error cause (after, state.2)

namespace Chronicled

def tell (event : Event) : Chronicled Unit := modify fun state ↦ (state.1, state.2.add event)

def create (make : Nat → Value) : Chronicled Value := do
  let value ← (do return make (← Run.freshId) : Run Value)
  let state ← get
  tell (.made state.1.store value)
  return value

/-- A builtin function, of which it is told if it makes a value. -/
def builtin : Builtin → List Value → Chronicled Value
  | .rest, [.array _ (_ :: others)] => create (.array · others)
  | .push, [.array _ elements, value] => create (.array · (elements ++ [value]))
  | function, args => liftM (function.apply args)

def note (value : Value) : Chronicled Value := do
  let state ← get
  tell (.seen state.1.store value)
  return value

def outcome {α : Type} (x : Chronicled α) : Chronicled (Except Abort α) := fun state ↦
  match x state with
  | .ok a after => .ok (.ok a) after
  | .error cause after => .ok (.error cause) after

end Chronicled

/-- The steps of evaluation with the chronicle of what they make and of the values that come up. -/
def Effects.chronicled (registry : Registry) : Effects Chronicled where
  lookup env name := liftM (Evaluation.lookup registry env name)
  bindTo env target value := liftM (Evaluation.bindTo env target value)
  create := Chronicled.create
  builtin := Chronicled.builtin
  enclose scope := liftM (Run.enclose scope)
  record entry := liftM (Run.record entry)
  abort {α} cause := liftM (throw cause : Run α)
  inside := id
  note := Chronicled.note

def Chronicled.evaluateText (registry : Registry) (env : Address) (text : String) :
    Chronicled (Option Value) := do
  let parsed := parse text
  Run.recordErrors parsed
  match parsed.toExcept with
  | .error errors => liftM (throw (.rejected errors) : Run (Option Value))
  | .ok statements => (Effects.chronicled registry).evaluate maxDepth env (.program statements)

/-- A session of which a chronicle is kept. -/
def Session.chronicled (steps : List SessionStep) : Chronicled (List Outcome) :=
  take (fun registry env source ↦ (Chronicled.evaluateText registry env source).outcome) [] steps

namespace History

variable {history history' : History} {value : Value} {store : Store}

/-- Every value with a number of creation that stands in the value has been made as this very value
by the creation of that number. -/
def Known (history : History) (value : Value) : Prop :=
  value.Within (fun _ ↦ True) fun inner ↦ ∀ id ∈ inner.id?, history.births[id]? = some inner

theorem births_prefix (h : history ≤ history') : history.births <+: history'.births :=
  List.IsPrefix.filterMap Event.made? h

theorem getElem?_births (hle : history ≤ history') {n : Nat}
    (h : history.births[n]? = some value) : history'.births[n]? = some value := by
  obtain ⟨more, hmore⟩ := births_prefix hle
  rw [← hmore, List.getElem?_append_left (List.getElem?_eq_some_iff.mp h).1, h]

theorem births_made (history : History) (store : Store) (value : Value) :
    (history.add (.made store value)).births = history.births ++ [value] := by
  simp [births, add, Event.made?]

theorem births_seen (history : History) (store : Store) (value : Value) :
    (history.add (.seen store value)).births = history.births := by
  simp [births, add, Event.made?]

theorem le_add (history : History) (event : Event) : history ≤ history.add event :=
  List.prefix_append _ _

theorem Known.mono (h : history.Known value) (hle : history ≤ history') : history'.Known value :=
  Value.Within.mono h (fun _ _ ↦ trivial) fun _ hinner id hid ↦ getElem?_births hle (hinner id hid)

theorem Known.plain (hid : value.id? = none) (hparts : value.parts = []) : history.Known value :=
  .intro (by simp [hid]) (fun _ _ ↦ trivial) (by simp [hparts])

/-- The next value to be made is known as soon as it is made, if its parts are. -/
theorem Known.made (hid : value.id? = some history.births.length)
    (hparts : ∀ part ∈ value.parts, history.Known part) :
    (history.add (.made store value)).Known value := by
  refine .intro (fun id h ↦ ?_) (fun _ _ ↦ trivial) fun part hpart ↦
    (hparts part hpart).mono (history.le_add _)
  obtain rfl := Option.some.inj (hid.symm.trans h)
  rw [births_made, List.getElem?_concat_length]

end History

/-- The event may follow upon what has happened: what is made gets the next number and is made of
known values, and what comes up is known, as is all that is bound then. -/
def Event.Follows (event : Event) (history : History) : Prop :=
  (∀ bound ∈ event.bound, history.Known bound) ∧ match event with
    | made _ value =>
      value.id? = some history.births.length ∧ ∀ part ∈ value.parts, history.Known part
    | seen _ value => history.Known value

namespace History

/-- Every event follows upon those before it. -/
def Faithful (history : History) : Prop :=
  ∀ (i : Nat) (event : Event), history.events[i]? = some event → event.Follows (history.before i)

theorem Faithful.empty : History.empty.Faithful := fun _ _ h ↦ nomatch h

theorem Faithful.add {history : History} {event : Event} (h : history.Faithful)
    (hevent : event.Follows history) : (history.add event).Faithful := by
  intro i e he
  have hlt : i < history.events.length + 1 := by
    simpa [History.add] using (List.getElem?_eq_some_iff.mp he).1
  rcases Nat.lt_succ_iff_lt_or_eq.mp hlt with hlt | rfl
  · rw [History.add, List.getElem?_append_left hlt] at he
    rw [before, History.add, List.take_append_of_le_length (Nat.le_of_lt hlt)]
    exact h i e he
  · rw [History.add, List.getElem?_concat_length] at he
    obtain rfl := Option.some.inj he
    rw [before, History.add, List.take_left]
    exact hevent

/-- The chronicle is that of the machine: it tells of all creations, and what is bound is known. -/
structure Fits (history : History) (machine : Machine) : Prop where
  faithful : history.Faithful
  created : history.births.length = machine.created
  bound : ∀ value ∈ machine.store.values, history.Known value

end History

end MonkeyLang
