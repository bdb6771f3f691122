import ChatCommons.General.AntiEntropy
import ChatCommons.Model.NetworkRun

/-!
Two nodes that talk to each other: what one has sent the other may get at any later time, in any
order.
-/

namespace ChatCommons

open AntiEntropy

/-- The turns that the node of one side has taken. -/
def turnsOf (d : Side) (history : List (Side × Turn)) : List Turn :=
  (history.filter fun entry => entry.1 = d).map Prod.snd

def SwarmCommand.response : SwarmCommand → Option NetworkResponse
  | .sendResponse _ response => some response
  | _ => none

/-- A message comes from the other node, which has sent it before. -/
def Conveys (node : Side → NetworkNode) (history : List (Side × Turn)) (d : Side) : Input → Prop
  | .swarm (.request sender request _ _) => sender = (node d.other).localPeer ∧
    ∃ turn ∈ turnsOf d.other history, .sendRequest (node d).localPeer request ∈ turn.sent
  | .swarm (.response sender response) => sender = (node d.other).localPeer ∧
    ∃ turn ∈ turnsOf d.other history, ∃ command ∈ turn.sent, command.response = some response
  | _ => True

instance (node : Side → NetworkNode) (history : List (Side × Turn)) (d : Side) (input : Input) :
    Decidable (Conveys node history d input) := by
  unfold Conveys
  split
  · infer_instance
  · infer_instance
  · infer_instance

variable (C : Crypto) (P : PeerNames) (T : Side → Transport)

inductive PairRun (start : Side → NetworkNode) :
    List (Side × Turn) → (Side → NetworkNode) → Prop
  | nil : PairRun start [] start
  | snoc {history : List (Side × Turn)} {node : Side → NetworkNode}
    (h : PairRun start history node) (d : Side) (input : Input)
    (hinput : Conveys node history d input) :
    PairRun start (history ++ [(d, (node d).turn C P (T d) input)])
      (Function.update node d ((node d).turn C P (T d) input).next)

end ChatCommons
