import ChatCommons.General.AntiEntropy
import ChatCommons.Model.SyncPeer

/-!
Two peers of one community that have greeted each other; every message in flight
may be the next to be delivered.
-/

namespace ChatCommons

open AntiEntropy

structure SyncSession where
  peer : Side → SyncPeer
  flight : List (Side × SyncMessage)
  errors : List (Side × SyncError) := []

namespace SyncSession

variable (C : Crypto)

/-- `d` receives `message`; `rest` stays in flight. -/
def deliver (s : SyncSession) (d : Side) (message : SyncMessage)
    (rest : List (Side × SyncMessage)) : SyncSession :=
  match (s.peer d).receive C message with
  | (peer, .ok replies) =>
    { s with
      peer := Function.update s.peer d peer
      flight := rest ++ replies.map (d.other, ·) }
  | (peer, .error error) =>
    { peer := Function.update s.peer d peer
      flight := rest
      errors := s.errors ++ [(d, error)] }

inductive Step (s : SyncSession) : SyncSession → Prop
  | deliver {pre post d message} : s.flight = pre ++ (d, message) :: post →
      Step s (s.deliver C d message (pre ++ post))

/-- A step that delivers to its destination the message sent to it first. -/
inductive InOrder (s : SyncSession) : SyncSession → Prop
  | deliver {pre post d message} : s.flight = pre ++ (d, message) :: post →
      (∀ e ∈ pre, e.1 ≠ d) → InOrder s (s.deliver C d message (pre ++ post))

abbrev Steps : SyncSession → SyncSession → Prop := Relation.ReflTransGen (Step C)

/-- Deliver the oldest message in flight. -/
def next (s : SyncSession) : SyncSession :=
  match s.flight with
  | [] => s
  | (d, message) :: rest => s.deliver C d message rest

def start (peer : Side → SyncPeer) : SyncSession where
  peer := peer
  flight := [(.right, (peer .left).hello), (.left, (peer .right).hello)]

end SyncSession

end ChatCommons
