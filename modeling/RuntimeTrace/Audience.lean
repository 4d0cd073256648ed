import RuntimeTrace.ProcessState

/-!
# Audiences

Whoever wants to hear of completed intervals subscribes to their kind.  A
subscriber is a function on whatever state it keeps, here a type parameter, so
nothing depends on what subscribers do.  An audience hears of an interval in the
order in which its members subscribed.

An inbox is the usual subscriber: it keeps a copy of everything it hears of until
its owner hangs up, and from then on drops what comes.  Hanging up does not end
the subscription.
-/

namespace RuntimeTrace

/-- The subscribers to one kind of thing, in order of subscription. -/
structure Audience (σ α : Type) where
  handlers : List (α → σ → σ)

namespace Audience

variable {σ α : Type}

/-- Nobody subscribes. -/
def none : Audience σ α := ⟨[]⟩

/-- How many there are. -/
def count (s : Audience σ α) : Nat := s.handlers.length

/-- Whether there are none. -/
def isEmpty (s : Audience σ α) : Bool := s.handlers.isEmpty

/-- One more subscriber, who hears of things after all others. -/
def subscribe (s : Audience σ α) (handler : α → σ → σ) : Audience σ α :=
  ⟨s.handlers ++ [handler]⟩

/-- Tells every subscriber, in order. -/
def tell (s : Audience σ α) (a : α) (state : σ) : σ :=
  s.handlers.foldl (fun state handler => handler a state) state

/-- How an audience is shown: by its size. -/
def text (s : Audience σ α) : String :=
  "Subscribers \x7b count: " ++ toString s.count ++ " \x7d"

theorem tell_none (a : α) (state : σ) : (none : Audience σ α).tell a state = state := rfl

theorem tell_subscribe (s : Audience σ α) (handler : α → σ → σ) (a : α) (state : σ) :
    (s.subscribe handler).tell a state = handler a (s.tell a state) := by
  simp [tell, subscribe, List.foldl_append]

end Audience

/-- What a subscriber has heard of; nothing is kept after it hangs up. -/
inductive Inbox (α : Type) where
  | listening (heard : List α)
  | hungUp

namespace Inbox

variable {α : Type}

/-- Nothing heard yet. -/
def empty : Inbox α := .listening []

/-- Hears of something. -/
def deliver (a : α) : Inbox α → Inbox α
  | .listening heard => .listening (heard ++ [a])
  | .hungUp => .hungUp

/-- What there is to read, if anybody still reads. -/
def heard? : Inbox α → Option (List α)
  | .listening heard => some heard
  | .hungUp => Option.none

end Inbox

/-- Subscribers to the three kinds of interval. -/
structure IntervalAudience (σ : Type) where
  collection : Audience σ ClosedCollection
  request : Audience σ ClosedRequest
  wait : Audience σ ClosedWait

namespace IntervalAudience

variable {σ : Type}

/-- Nobody subscribes. -/
def none : IntervalAudience σ := ⟨.none, .none, .none⟩

/-- Tells those who subscribe to the kind of an interval. -/
def tell (s : IntervalAudience σ) (interval : Interval) (state : σ) : σ :=
  match interval with
  | .collection closed => s.collection.tell closed state
  | .request closed => s.request.tell closed state
  | .wait closed => s.wait.tell closed state

end IntervalAudience

/-- Takes in a record and tells the audience of the interval it ended, if any. -/
def ProcessState.stepAndTell {σ : Type} (s : ProcessState) (audience : IntervalAudience σ)
    (record : Record) (state : σ) : Option Interval × ProcessState × σ :=
  match s.step record with
  | (some interval, s) => (some interval, s, audience.tell interval state)
  | (.none, s) => (.none, s, state)

end RuntimeTrace
