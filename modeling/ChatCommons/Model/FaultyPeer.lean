import ChatCommons.Model.FaultyStore
import ChatCommons.Model.SyncPeer

/-!
The same peer over a database that may refuse a write.
-/

namespace ChatCommons

open Collections

namespace SyncPeer

section Faulty

variable (C : Crypto) (fault : EventId → Bool)

def ingestPendingUnless (peer : SyncPeer) : SyncPeer × Except SyncError Unit :=
  let candidates := peer.pending.toList.map Prod.snd
  if peer.canIngest && !candidates.isEmpty then
    match peer.node.ingestUnless C fault candidates with
    | (node, .error error) => ({ peer with node }, .error (.node error))
    | (node, .ok _) =>
      ({ peer with node, pending := peer.pending.filter fun id _ => id ∉ node.known }, .ok ())
  else (peer, .ok ())

def acceptUnless (peer : SyncPeer) (events : List SignedEvent) :
    SyncPeer × Except SyncError (List SyncMessage) :=
  if events.any fun event => !event.belongsTo peer.community then (peer, .error .wrongCommunity)
  else
    let newIds := peer.newIds events
    if peer.pending.size + newIds.size > MAX_PENDING_SYNC_EVENTS then
      (peer, .error .itemLimitExceeded)
    else
      match peer.checkQuota (events.filter fun event => event.eventId ∈ newIds) with
      | .error error => (peer, .error error)
      | .ok _ =>
        match (peer.admitPending newIds events).ingestPendingUnless C fault with
        | (peer, .error error) => (peer, .error error)
        | (peer, .ok _) => (peer, .ok (wantMessages peer.community peer.missingParents.toList))

def receiveUnless (peer : SyncPeer) (message : SyncMessage) :
    SyncPeer × Except SyncError (List SyncMessage) :=
  match validateMessage C message with
  | .error error => (peer, .error error)
  | .ok _ =>
    if message.community ≠ peer.community then (peer, .error .wrongCommunity)
    else
      match message with
      | .hello .. => (peer, peer.headMessages C)
      | .heads _ eventIds => (peer, .ok (peer.wantUnknown eventIds))
      | .want _ eventIds => (peer, peer.serve C eventIds)
      | .events _ events => peer.acceptUnless C fault events

end Faulty

section Faultless

variable {C : Crypto}

theorem ingestPendingUnless_never (peer : SyncPeer) :
    peer.ingestPendingUnless C (fun _ => false) = peer.ingestPending C := by
  unfold ingestPendingUnless ingestPending
  simp only [ingestUnless_never]
  all_goals rfl

theorem acceptUnless_never (peer : SyncPeer) (events : List SignedEvent) :
    peer.acceptUnless C (fun _ => false) events = peer.accept C events := by
  unfold acceptUnless accept
  simp only [ingestPendingUnless_never]
  all_goals rfl

theorem receiveUnless_never (peer : SyncPeer) (message : SyncMessage) :
    peer.receiveUnless C (fun _ => false) message = peer.receive C message := by
  unfold receiveUnless receive
  cases validateMessage C message with
  | error e => rfl
  | ok u =>
    by_cases hcommunity : message.community = peer.community
    · cases message with
      | events community events => simp only [acceptUnless_never]
      | hello _ _ _ => rfl
      | heads _ _ => rfl
      | want _ _ => rfl
    · simp only [ne_eq, hcommunity, not_false_eq_true, if_true]

end Faultless

end SyncPeer

end ChatCommons
