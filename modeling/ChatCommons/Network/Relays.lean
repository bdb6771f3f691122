import ChatCommons.Network.Connections
import ChatCommons.Network.Disclosure

/-!
What keeps relays out of the community layer.
-/

namespace ChatCommons

open Collections NetworkNode

variable {C : Crypto} {P : PeerNames} {T : Transport} {peer : PeerId} {turns : List Turn}
  {turn : Turn} {start node : NetworkNode} {own : DeviceIdentity} {certificate : DeviceCertificate}
  {sync : SyncPeer} {users : BTreeSet UserId} {revocations : RevocationSet}

namespace Turn

def Discloses (peer : PeerId) (turn : Turn) : Prop :=
  ∃ request channel nonce invitation events,
    turn.input = .swarm (.request peer request channel nonce) ∧
      .sendResponse channel (.bootstrapAncestry invitation events) ∈ turn.sent

/-- The peer is not authenticated, and it is sent neither the certificate of the node nor
community data nor an ancestry. -/
def Excludes (peer : PeerId) (turn : Turn) : Prop :=
  peer ∉ turn.node.authenticated ∧ (∀ command ∈ turn.sent, ¬ command.ShowsCertificate peer) ∧
    ¬ turn.Serves peer ∧ ¬ turn.Discloses peer

/-- No relay is admitted, shows a valid certificate as the bootstrap target or proves an
invitation, and no authenticated peer is made a relay. -/
def Separates (C : Crypto) (P : PeerNames) (turn : Turn) : Prop :=
  (∀ peer ∈ turn.node.relayPeers, ¬ turn.Admits C P peer ∧
    ¬ turn.node.Greets C P peer turn.input ∧
    ∀ invitation device, ¬ turn.Proves C peer invitation device) ∧
  ∀ peer, turn.input.MakesRelay peer → peer ∉ turn.node.authenticated

end Turn

def NetworkNode.Separate (node : NetworkNode) : Prop :=
  ∀ peer ∈ node.relayPeers, peer ∉ node.authenticated

theorem Separate.next (h : node.Separate) {input : Input}
    (hturn : (node.turn C P T input).Separates C P) :
    (node.turn C P T input).next.Separate := by
  intro peer hrelay hpeer
  have hfoot := turn_footprint (C := C) (P := P) (T := T) node input
  obtain hbefore | hadmits := turn_admits hpeer
  · obtain hold | hmade := hfoot.made peer hrelay
    · exact h peer hold hbefore
    · exact hturn.2 peer hmade hbefore
  · obtain hold | hmade := hfoot.made peer hrelay
    · exact (hturn.1 peer hold).1 hadmits
    · cases input with
      | swarm event => exact hmade
      | call call =>
        cases call with
        | reserveRelay _ => exact hadmits
        | dial _ _ => exact hadmits
        | _ => exact hmade

theorem Separate.excludes (h : node.Separate) {input : Input}
    (hturn : (node.turn C P T input).Separates C P) (hrelay : peer ∈ node.relayPeers) :
    (node.turn C P T input).Excludes peer := by
  have hmove := turn_moves (C := C) (P := P) (T := T) node input
  refine ⟨h peer hrelay, fun command hsent hshows => ?_, fun hserves => ?_, ?_⟩
  · exact (hturn.1 peer hrelay).2.1 (turn_shows hsent hshows)
  · exact h peer hrelay (served_authenticated hmove hserves)
  · rintro ⟨request, channel, nonce, invitation, events, hinput, hsent⟩
    obtain ⟨sender, signature, nonce', grant, pending, hasked, hpending, hname, hgrant, _, hverify⟩ :=
      hmove.ancestry_sent hsent
    obtain ⟨⟩ := hinput.symm.trans hasked
    exact (hturn.1 peer hrelay).2.2 invitation pending.authenticated
      ⟨signature, channel, nonce, grant, pending, hinput, hpending, hname, rfl, hgrant, hverify⟩

/-- In a run whose turns all keep relays and members apart, no relay enters the community layer. -/
theorem relays_excluded (hnew : NetworkNode.new C P own certificate sync users revocations = .ok start)
    (hrun : Run C P T start turns node) (hturns : ∀ turn ∈ turns, turn.Separates C P) :
    node.Separate ∧ ∀ turn ∈ turns, ∀ peer ∈ turn.node.relayPeers, turn.Excludes peer := by
  have hstart : start.Separate := by
    rw [newNode_eq hnew]
    exact fun peer h => absurd h (by simp)
  induction hrun with
  | nil => exact ⟨hstart, by simp⟩
  | @snoc turns node hrun input ih =>
    obtain ⟨hnode, hbefore⟩ := ih fun turn h => hturns turn (List.mem_append_left _ h)
    have hlast := hturns (node.turn C P T input) (by simp)
    refine ⟨Separate.next hnode hlast, fun turn hturn => ?_⟩
    rcases List.mem_append.mp hturn with hturn | hturn
    · exact hbefore turn hturn
    · obtain rfl := List.mem_singleton.mp hturn
      exact fun peer hrelay => Separate.excludes hnode hlast hrelay

section Guest

open Sample

/-- A member through whom the node relays is authenticated when it asks to be. -/
theorem relay_admitted :
    Run crypto names reliable host (hostTurns host [guestRelays, guestAuthenticates, guestGreets])
        (hostAfter host [guestRelays, guestAuthenticates, guestGreets]) ∧
      ∃ turn ∈ hostTurns host [guestRelays, guestAuthenticates, guestGreets],
        guestPeer ∈ turn.node.relayPeers ∧ ¬ turn.Excludes guestPeer := by
  refine ⟨host_runs _, _, List.mem_cons_of_mem _ (List.mem_cons_of_mem _ (by
    rw [hostTurns]; exact List.mem_cons_self)), ?_, fun h => h.1 ?_⟩
  all_goals decide +kernel

theorem guest_separates :
    ∀ turn ∈ hostTurns host [guestRelays, guestConnects], turn.Separates crypto names := by
  intro turn hturn
  simp only [hostTurns, List.mem_cons, List.not_mem_nil, or_false] at hturn
  rcases hturn with rfl | rfl
  · exact ⟨fun peer h => absurd h (by simp [turn, host]), fun peer _ => by simp [turn, host]⟩
  · refine ⟨fun peer hrelay => ⟨id, fun h => h.2 hrelay, ?_⟩, fun peer => False.elim⟩
    rintro invitation device ⟨signature, channel, nonce, grant, pending, hinput, _⟩
    cases hinput

theorem relays_excluded_guest :
    (hostAfter host [guestRelays, guestConnects]).Separate ∧
      ∀ turn ∈ hostTurns host [guestRelays, guestConnects], ∀ peer ∈ turn.node.relayPeers,
        turn.Excludes peer :=
  relays_excluded host_new (host_runs _) guest_separates

end Guest

end ChatCommons
