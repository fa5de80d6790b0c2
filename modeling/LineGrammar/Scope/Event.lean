import LineGrammar.Match

/-!
What a parse makes known while it runs, and who hears of it. Events go out on
channels; the listeners of a channel hear of an event in the order in which
they subscribed.
-/

namespace LineGrammar

inductive Channel where
  | matched
  | saved
  | opened
  | closed
  | swapped
  | lineBegun
  | lineEnded
  deriving DecidableEq, Repr

namespace Channel

def all : List Channel :=
  [.matched, .saved, .opened, .closed, .swapped, .lineBegun, .lineEnded]

def name : Channel → String
  | .matched => "match"
  | .saved => "save"
  | .opened => "open"
  | .closed => "close"
  | .swapped => "swap"
  | .lineBegun => "bol"
  | .lineEnded => "eol"

def describe : Channel → String
  | .matched => "Match"
  | .saved => "Save"
  | .opened => "Open"
  | .closed => "Close"
  | .swapped => "Swap"
  | .lineBegun => "BeginOfLine"
  | .lineEnded => "EndOfLine"

def ofName? (name : String) : Option Channel := all.find? (·.name == name)

end Channel

inductive Event where
  | matched (scope : String) (rule : Nat) (found : Match)
  | saved (scope : String) (found : Match)
  | opened (scope : String) (depth : Nat)
  | closed (scope : String) (depth : Nat)
  | swapped (old new : String)
  | lineBegun (position : Position)
  | lineEnded (position : Position)
  deriving DecidableEq, Repr

def Event.channel : Event → Channel
  | .matched .. => .matched
  | .saved .. => .saved
  | .opened .. => .opened
  | .closed .. => .closed
  | .swapped .. => .swapped
  | .lineBegun _ => .lineBegun
  | .lineEnded _ => .lineEnded

structure Hub (Listener : Type) where
  subscribers : List (Channel × List Listener) := []

namespace Hub

variable {Listener : Type}

def listeners (hub : Hub Listener) (channel : Channel) : List Listener :=
  (hub.subscribers.lookup channel).getD []

def subscribe (hub : Hub Listener) (channel : Channel) (listener : Listener) : Hub Listener :=
  if hub.subscribers.any (·.1 == channel) then
    ⟨hub.subscribers.map fun entry =>
      if entry.1 == channel then (channel, entry.2 ++ [listener]) else entry⟩
  else ⟨hub.subscribers ++ [(channel, [listener])]⟩

/-- Who hears of an event, in order. -/
def publish (hub : Hub Listener) (event : Event) : List (Listener × Event) :=
  (hub.listeners event.channel).map fun listener => (listener, event)

def publishAll (hub : Hub Listener) (events : List Event) : List (Listener × Event) :=
  events.flatMap hub.publish

def render (hub : Hub Listener) : String :=
  let counts := hub.subscribers.map fun (channel, listeners) =>
    Text.quote channel.name ++ ": " ++ toString listeners.length
  "Hub \x7b subscribers: \x7b" ++ ", ".intercalate counts ++ "\x7d \x7d"

end Hub

end LineGrammar
