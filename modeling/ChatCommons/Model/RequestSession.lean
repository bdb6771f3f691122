import ChatCommons.Model.Network
import ChatCommons.Model.SyncSession

/-!
Two peers behind their network nodes, which send what their peers answer through
`normalize_messages`, so that each request is for one event.
-/

namespace ChatCommons

open AntiEntropy

/-- The ids that a message asks for. -/
def SyncMessage.wanted : SyncMessage → List EventId
  | .want _ eventIds => eventIds
  | _ => []

/-- Heads and events may make a peer ask. -/
def SyncMessage.prompts : SyncMessage → Bool
  | .heads .. => true
  | .events .. => true
  | _ => false

structure RequestSession where
  peer : Side → SyncPeer
  flight : List (Side × SyncMessage)
  handled : List (Side × SyncMessage) := []
  requested : List (Side × EventId) := []
  errors : List (Side × NetworkError) := []

namespace RequestSession

variable (C : Crypto)

/-- `d` receives `message`; `rest` stays in flight. -/
def deliver (s : RequestSession) (d : Side) (message : SyncMessage)
    (rest : List (Side × SyncMessage)) : RequestSession :=
  let (peer, result) := (s.peer d).receive C message
  let received := { s with
    peer := Function.update s.peer d peer
    flight := rest
    handled := s.handled ++ [(d, message)] }
  match result with
  | .error error => { received with errors := s.errors ++ [(d, .sync error)] }
  | .ok replies =>
    match normalizeMessages replies with
    | .error reason => { received with errors := s.errors ++ [(d, .rejected reason)] }
    | .ok outgoing =>
      { received with
        flight := rest ++ outgoing.map (d.other, ·)
        requested := s.requested ++ (outgoing.flatMap SyncMessage.wanted).map (d, ·) }

inductive Step (s : RequestSession) : RequestSession → Prop
  | deliver {pre post d message} : s.flight = pre ++ (d, message) :: post →
      Step s (s.deliver C d message (pre ++ post))

/-- A step that delivers to its destination the message sent to it first. -/
inductive InOrder (s : RequestSession) : RequestSession → Prop
  | deliver {pre post d message} : s.flight = pre ++ (d, message) :: post →
      (∀ e ∈ pre, e.1 ≠ d) → InOrder s (s.deliver C d message (pre ++ post))

abbrev Steps : RequestSession → RequestSession → Prop := Relation.ReflTransGen (Step C)

/-- Deliver the oldest message in flight. -/
def next (s : RequestSession) : RequestSession :=
  match s.flight with
  | [] => s
  | (d, message) :: rest => s.deliver C d message rest

def start (peer : Side → SyncPeer) : RequestSession where
  peer := peer
  flight := [(.right, (peer .left).hello), (.left, (peer .right).hello)]

/-- How often `d` has asked for an event. -/
def requests (s : RequestSession) (d : Side) : ℕ := s.requested.countP fun e => e.1 = d

/-- How many messages `d` has handled that may make it ask. -/
def prompts (s : RequestSession) (d : Side) : ℕ :=
  s.handled.countP fun e => decide (e.1 = d) && e.2.prompts

/-- A request of `d` for the event, or an answer that has it, is on its way. -/
def Open (s : RequestSession) (d : Side) (id : EventId) : Prop :=
  (∃ community eventIds, (d.other, .want community eventIds) ∈ s.flight ∧ id ∈ eventIds) ∨
    ∃ community events, (d, .events community events) ∈ s.flight ∧
      id ∈ events.map SignedEvent.eventId

end RequestSession

end ChatCommons
