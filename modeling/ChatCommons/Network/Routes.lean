import ChatCommons.General.Stateful
import ChatCommons.Model.Bootstrap

/-!
The validator of addresses looks at the positions of components, and the dialer scans them one
by one; they agree on every address.
-/

namespace ChatCommons

open Collections Stateful NetworkNode

variable {address front back base : Multiaddr} {relay : PeerId}

section Positions

variable {protocols xs ys : List Protocol} {test : Protocol → Bool} {i : ℕ}

theorem positions_append : positions (xs ++ ys) test =
    positions xs test ++ (positions ys test).map (· + xs.length) := by
  have hshift : (ys.zipIdx xs.length).filter (fun entry => test entry.1) =
      (ys.zipIdx.filter fun entry => test entry.1).map fun entry =>
        (entry.1, xs.length + entry.2) := by
    rw [List.zipIdx_eq_map_add (i := xs.length), List.filter_map]
    rfl
  unfold positions
  rw [List.zipIdx_append, List.filter_append, List.map_append, Nat.zero_add, hshift, List.map_map,
    List.map_map]
  congr 1
  apply List.map_congr_left
  exact fun entry _ => Nat.add_comm _ _

theorem positions_eq_nil : positions protocols test = [] ↔ ∀ x ∈ protocols, test x = false := by
  induction protocols using List.reverseRecOn with
  | nil => simp [positions]
  | append_singleton xs x ih =>
    rw [positions_append, List.append_eq_nil_iff, ih, List.map_eq_nil_iff]
    simp only [List.mem_append, List.mem_singleton, or_imp, forall_and, forall_eq]
    cases htest : test x <;> simp [positions, htest]

theorem positions_cons_self {x : Protocol} (hx : test x = true) :
    positions (x :: ys) test = 0 :: (positions ys test).map (· + 1) := by
  have hone : positions [x] test = [0] := by simp [positions, hx]
  rw [← List.singleton_append, positions_append, hone]
  rfl

theorem positions_eq_singleton : positions protocols test = [i] ↔ ∃ xs x ys,
    protocols = xs ++ x :: ys ∧ xs.length = i ∧ test x = true ∧
      (∀ y ∈ xs, test y = false) ∧ ∀ y ∈ ys, test y = false := by
  constructor
  · intro h
    obtain ⟨row, hrow, hi⟩ := List.mem_map.mp (h ▸ List.mem_singleton_self i)
    obtain ⟨hmem, htest⟩ := List.mem_filter.mp hrow
    obtain ⟨x, j⟩ := row
    obtain rfl : j = i := hi
    have hget : protocols[j]? = some x := List.mem_zipIdx_iff_getElem?.mp hmem
    obtain ⟨hj, rfl⟩ := List.getElem?_eq_some_iff.mp hget
    have hlength : (protocols.take j).length = j := by
      rw [List.length_take]
      omega
    have hsplit : protocols = protocols.take j ++ protocols[j] :: protocols.drop (j + 1) := by
      rw [← List.drop_eq_getElem_cons hj, List.take_append_drop]
    rw [hsplit, positions_append, positions_cons_self htest, List.map_cons, hlength,
      Nat.zero_add] at h
    have hsizes := congrArg List.length h
    simp only [List.length_append, List.length_cons, List.length_map, List.length_nil] at hsizes
    refine ⟨_, _, _, hsplit, hlength, htest, ?_, ?_⟩
    · apply positions_eq_nil.mp
      apply List.eq_nil_of_length_eq_zero
      omega
    · apply positions_eq_nil.mp
      apply List.eq_nil_of_length_eq_zero
      omega
  · rintro ⟨xs, x, ys, rfl, rfl, htest, hxs, hys⟩
    rw [positions_append, positions_cons_self htest, positions_eq_nil.mpr hxs,
      positions_eq_nil.mpr hys]
    simp

end Positions

section Shapes

/-- The component names no peer and is no circuit. -/
def Protocol.Transports (protocol : Protocol) : Prop :=
  (∀ peer, protocol ≠ .p2p peer) ∧ protocol ≠ .p2pCircuit

def RelayShape (relay : PeerId) (address : Multiaddr) : Prop :=
  ∃ route : Multiaddr, address = route ++ [.p2p relay, .p2pCircuit] ∧
    (∀ x ∈ route, x.Transports) ∧
    ((∃ port, .tcp port ∈ route) ∨ (∃ port, .udp port ∈ route) ∧ .quicV1 ∈ route)

def DirectShape (address : Multiaddr) : Prop :=
  ∃ route : Multiaddr, address = route ++ [.quicV1] ∧ (∀ x ∈ route, x.Transports) ∧
    ∃ port, .udp port ∈ route

theorem isP2p_eq_true {x : Protocol} : x.isP2p = true ↔ ∃ peer, x = .p2p peer := by
  cases x <;> simp [Protocol.isP2p]

theorem isTcp_iff : front.any Protocol.isTcp = true ↔ ∃ port, .tcp port ∈ front := by
  rw [List.any_eq_true]
  constructor
  · rintro ⟨x, hx, htest⟩
    cases x with
    | tcp port => exact ⟨port, hx⟩
    | _ => cases htest
  · rintro ⟨port, hport⟩
    exact ⟨_, hport, rfl⟩

theorem isUdp_iff : front.any Protocol.isUdp = true ↔ ∃ port, .udp port ∈ front := by
  rw [List.any_eq_true]
  constructor
  · rintro ⟨x, hx, htest⟩
    cases x with
    | udp port => exact ⟨port, hx⟩
    | _ => cases htest
  · rintro ⟨port, hport⟩
    exact ⟨_, hport, rfl⟩

theorem isQuic_iff : (front.any fun x => x = .quicV1) = true ↔ .quicV1 ∈ front := by
  rw [List.any_eq_true]
  constructor
  · rintro ⟨x, hx, htest⟩
    exact of_decide_eq_true htest ▸ hx
  · intro hmem
    exact ⟨_, hmem, decide_eq_true rfl⟩

theorem transports_iff : (∀ x ∈ front, x.Transports) ↔
    (∀ x ∈ front, x.isP2p = false) ∧ ∀ x ∈ front, decide (x = .p2pCircuit) = false := by
  rw [← forall₂_and]
  apply forall₂_congr
  intro x _
  cases x <;> simp [Protocol.Transports, Protocol.isP2p]

theorem relayRoute_iff : relayRoute address = true ↔ ∃ relay, RelayShape relay address := by
  constructor
  · intro h
    unfold relayRoute at h
    split at h
    · rename_i peer circuit hpeer hcircuit
      simp only [Bool.and_eq_true, decide_eq_true_eq, Bool.or_eq_true, isTcp_iff, isUdp_iff,
        isQuic_iff] at h
      obtain ⟨⟨hlast, hnext⟩, htransport⟩ := h
      obtain ⟨route, x, back, rfl, rfl, hx, hroute, hback⟩ := positions_eq_singleton.mp hpeer
      obtain ⟨relay, rfl⟩ := isP2p_eq_true.mp hx
      obtain ⟨before, y, after, hsplit, hbefore, hy, hnot, _⟩ := positions_eq_singleton.mp hcircuit
      obtain rfl := of_decide_eq_true hy
      have hlengths := congrArg List.length hsplit
      simp only [List.length_append, List.length_cons] at hlengths hlast
      have hafter : after = [] := List.eq_nil_of_length_eq_zero (by omega)
      have hone : before = route ++ [.p2p relay] ∧ back = [.p2pCircuit] := by
        rw [hafter, List.append_cons] at hsplit
        have hinj := List.append_inj' hsplit (by
          rw [hafter, List.length_nil] at hlengths
          rw [List.length_singleton]
          omega)
        exact ⟨hinj.1.symm, hinj.2⟩
      obtain ⟨rfl, rfl⟩ := hone
      refine ⟨relay, route, rfl, transports_iff.mpr ⟨hroute, fun z hz => ?_⟩, ?_⟩
      · exact hnot z (List.mem_append_left _ hz)
      · rwa [List.take_left] at htransport
    · cases h
  · rintro ⟨relay, route, rfl, hroute, htransport⟩
    obtain ⟨hpeers, hcircuits⟩ := transports_iff.mp hroute
    have hpeer : positions (route ++ [.p2p relay, .p2pCircuit]) Protocol.isP2p =
        [route.length] :=
      positions_eq_singleton.mpr ⟨route, _, _, rfl, rfl, rfl, hpeers, by simp [Protocol.isP2p]⟩
    have hcircuit : positions (route ++ [.p2p relay, .p2pCircuit]) (· = .p2pCircuit) =
        [route.length + 1] := by
      apply positions_eq_singleton.mpr
      refine ⟨route ++ [.p2p relay], .p2pCircuit, [], by simp, by simp, by simp, ?_, by simp⟩
      intro y hy
      obtain hy | hy := List.mem_append.mp hy
      · exact hcircuits y hy
      · simp [List.mem_singleton.mp hy]
    have htaken : (route ++ [Protocol.p2p relay, .p2pCircuit]).take route.length = route :=
      List.take_left
    rw [← isTcp_iff, ← isUdp_iff, ← isQuic_iff, ← Bool.and_eq_true, ← Bool.or_eq_true] at htransport
    unfold relayRoute
    rw [hpeer, hcircuit]
    dsimp only
    rw [htaken, htransport, Bool.and_true, Bool.and_eq_true, decide_eq_true_eq, decide_eq_true_eq]
    exact ⟨by simp, rfl⟩

theorem directQuic_iff : directQuic address = true ↔ DirectShape address := by
  unfold directQuic
  rw [Bool.and_eq_true, Bool.and_eq_true, Bool.and_eq_true, List.isEmpty_iff, List.isEmpty_iff,
    positions_eq_nil, positions_eq_nil, ← transports_iff, decide_eq_true_eq,
    List.getLast?_eq_some_iff, isUdp_iff]
  constructor
  · rintro ⟨⟨htransports, route, rfl⟩, port, hport⟩
    refine ⟨route, rfl, fun x hx => htransports x (List.mem_append_left _ hx), port, ?_⟩
    obtain hroute | hlast := List.mem_append.mp hport
    · exact hroute
    · cases List.mem_singleton.mp hlast
  · rintro ⟨route, rfl, htransports, port, hport⟩
    refine ⟨⟨fun x hx => ?_, route, rfl⟩, port, List.mem_append_left _ hport⟩
    obtain hroute | hlast := List.mem_append.mp hx
    · exact htransports x hroute
    · rw [List.mem_singleton.mp hlast]
      exact ⟨fun peer => Protocol.noConfusion, Protocol.noConfusion⟩

theorem validateAddress_iff : validateAddress address = .ok () ↔
    (∃ relay, RelayShape relay address) ∨ DirectShape address := by
  rw [← relayRoute_iff, ← directQuic_iff, validateAddress]
  cases address with
  | nil => simp [relayRoute, directQuic, positions]
  | cons x xs =>
    cases directQuic (x :: xs) <;> cases relayRoute (x :: xs) <;> simp

end Shapes

section Dialer

theorem relayPeerLoop_front (h : .p2pCircuit ∉ front) (previous : Option PeerId) :
    relayPeerLoop previous (front ++ .p2p relay :: .p2pCircuit :: back) = some relay := by
  induction front generalizing previous with
  | nil => rfl
  | cons x front ih =>
    obtain ⟨hx, hfront⟩ := not_or.mp (List.mem_cons.not.mp h)
    cases x with
    | p2pCircuit => exact absurd rfl hx
    | _ => exact ih hfront _

theorem relayBaseLoop_front (h : .p2pCircuit ∉ front) :
    relayBaseLoop base (front ++ .p2pCircuit :: back) =
      (relayPeerFromBase (base ++ front)).map fun _ => base ++ front := by
  induction front generalizing base with
  | nil => rw [List.append_nil]; rfl
  | cons x front ih =>
    obtain ⟨hx, hfront⟩ := not_or.mp (List.mem_cons.not.mp h)
    have hstep := @ih (base ++ [x]) hfront
    rw [List.append_assoc, List.singleton_append] at hstep
    cases x with
    | p2pCircuit => exact absurd rfl hx
    | _ => exact hstep

theorem relayPeerFromBase_snoc : relayPeerFromBase (front ++ [.p2p relay]) = some relay := by
  rw [relayPeerFromBase, List.getLast?_concat]

variable {T : Transport} {node : NetworkNode} {endpoint : PeerId}

theorem issue_run (command : SwarmCommand) : issue T command node =
    .ok (T node.swarm command) { node with swarm := node.swarm ++ [command] } := rfl

theorem reserveRelay_run (hpeer : relayPeerFromBase base = some relay)
    (hcircuit : .p2pCircuit ∉ base) (hfree : relay ∉ node.pendingRelayReservations)
    (hsent : T node.swarm (.dial base) = .ok ()) :
    ∃ later, reserveRelay T base node = .ok (base ++ [.p2pCircuit]) later := by
  unfold reserveRelay
  rw [hpeer]
  dsimp only
  rw [if_neg hcircuit]
  simp only [bind_run, modify_run, get_run, if_neg hfree, set_run, issue_run, hsent, pure_run]
  exact ⟨_, rfl⟩

theorem dial_route_run (hmem : .p2pCircuit ∈ address)
    (hpeer : relayPeerFromRoute address = some relay)
    (hbase : relayBaseFromRoute address = some base) (hfree : relay ∉ node.pendingRelayDials)
    (hsent : T node.swarm (.dial base) = .ok ()) :
    ∃ later, dial T endpoint address node = .ok () later ∧
      later.pendingRelayDials[relay]? = some (endpoint, address) ∧
      later.swarm = node.swarm ++ [.dial base] := by
  unfold dial
  rw [if_pos hmem, hpeer]
  dsimp only
  rw [hbase]
  simp only [bind_run, modify_run, get_run, if_neg hfree, set_run, issue_run, hsent, pure_run]
  exact ⟨_, rfl, by simp, rfl⟩

theorem dial_direct_run (hmem : .p2pCircuit ∉ address)
    (hsent : T node.swarm (.dial (address ++ [.p2p endpoint])) = .ok ()) :
    ∃ later, dial T endpoint address node = .ok () later ∧
      later.swarm = node.swarm ++ [.dial (address ++ [.p2p endpoint])] := by
  unfold dial
  rw [if_neg hmem]
  simp only [bind_run, issue_run, hsent, pure_run]
  exact ⟨_, rfl, rfl⟩

end Dialer

/-- What the dialer makes of a route through a relay. -/
structure DialsThrough (relay : PeerId) (base address : Multiaddr) : Prop where
  peerOf : relayPeerFromRoute address = some relay
  baseOf : relayBaseFromRoute address = some base
  route : address = base ++ [.p2pCircuit]
  ends : ∃ front, base = front ++ [.p2p relay] ∧ ∀ x ∈ front, x.Transports
  checked : relayPeerFromBase base = some relay ∧ .p2pCircuit ∉ base
  reserved : ∀ (T : Transport) (node : NetworkNode), relay ∉ node.pendingRelayReservations →
    T node.swarm (.dial base) = .ok () → ∃ later, reserveRelay T base node = .ok address later
  dialed : ∀ (T : Transport) (node : NetworkNode) (endpoint : PeerId),
    relay ∉ node.pendingRelayDials → T node.swarm (.dial base) = .ok () →
      ∃ later, dial T endpoint address node = .ok () later ∧
        later.pendingRelayDials[relay]? = some (endpoint, address) ∧
        later.swarm = node.swarm ++ [.dial base]

/-- What the dialer makes of a direct address. -/
structure DialsDirectly (address : Multiaddr) : Prop where
  transports : ∀ x ∈ address, x.Transports
  named : ∀ endpoint peer, .p2p peer ∈ address ++ [.p2p endpoint] ↔ peer = endpoint
  once : ∀ endpoint, List.countP Protocol.isP2p (address ++ [.p2p endpoint]) = 1
  dialed : ∀ (T : Transport) (node : NetworkNode) (endpoint : PeerId),
    T node.swarm (.dial (address ++ [.p2p endpoint])) = .ok () →
      ∃ later, dial T endpoint address node = .ok () later ∧
        later.swarm = node.swarm ++ [.dial (address ++ [.p2p endpoint])]

theorem RelayShape.dials (h : RelayShape relay address) :
    .p2pCircuit ∈ address ∧ ∃ base, DialsThrough relay base address := by
  obtain ⟨front, rfl, hfront, _⟩ := h
  have hnot : .p2pCircuit ∉ front := fun hmem => (hfront _ hmem).2 rfl
  have hbase : .p2pCircuit ∉ front ++ [.p2p relay] := by simp [hnot]
  have hmem : .p2pCircuit ∈ front ++ [.p2p relay, .p2pCircuit] := by simp
  have hroute : front ++ [.p2p relay, .p2pCircuit] = (front ++ [.p2p relay]) ++ [.p2pCircuit] := by
    simp
  have hpeerOf : relayPeerFromRoute (front ++ [.p2p relay, .p2pCircuit]) = some relay :=
    relayPeerLoop_front hnot none
  have hbaseOf : relayBaseFromRoute (front ++ [.p2p relay, .p2pCircuit]) =
      some (front ++ [.p2p relay]) := by
    rw [relayBaseFromRoute, hroute, relayBaseLoop_front hbase, List.nil_append,
      relayPeerFromBase_snoc, Option.map_some]
  refine ⟨hmem, front ++ [.p2p relay], hpeerOf, hbaseOf, hroute, ⟨front, rfl, hfront⟩,
    ⟨relayPeerFromBase_snoc, hbase⟩, fun T node hfree hsent => ?_, fun T node endpoint hfree hsent =>
      dial_route_run hmem hpeerOf hbaseOf hfree hsent⟩
  rw [hroute]
  exact reserveRelay_run relayPeerFromBase_snoc hbase hfree hsent

theorem DirectShape.dials (h : DirectShape address) :
    .p2pCircuit ∉ address ∧ DialsDirectly address := by
  obtain ⟨route, rfl, hroute, _⟩ := h
  have hall : ∀ x ∈ route ++ [.quicV1], x.Transports := by
    intro x hx
    obtain hx | hx := List.mem_append.mp hx
    · exact hroute x hx
    · rw [List.mem_singleton.mp hx]
      exact ⟨fun peer => Protocol.noConfusion, Protocol.noConfusion⟩
  have hnot : .p2pCircuit ∉ route ++ [.quicV1] := fun hmem => (hall _ hmem).2 rfl
  have hplain := (transports_iff.mp hall).1
  refine ⟨hnot, hall, fun endpoint peer => ?_, fun endpoint => ?_, fun T node endpoint hsent =>
    dial_direct_run hnot hsent⟩
  · rw [List.mem_append, List.mem_singleton, Protocol.p2p.injEq]
    exact or_iff_right fun hmem => (hall _ hmem).1 peer rfl
  · rw [List.countP_append, List.countP_eq_zero.mpr fun x hx => by simp [hplain x hx]]
    rfl

/-- The validator accepts exactly the two shapes of address that the dialer understands. -/
theorem validateAddress_dials (address : Multiaddr) :
    (validateAddress address = .ok () →
      (.p2pCircuit ∈ address → ∃ relay base, DialsThrough relay base address) ∧
      (.p2pCircuit ∉ address → DialsDirectly address)) ∧
    ((∀ relay, ¬ RelayShape relay address) → ¬ DirectShape address →
      validateAddress address = .error .invalidAddress) ∧
    ((∃ relay, RelayShape relay address) ∨ DirectShape address →
      validateAddress address = .ok ()) := by
  refine ⟨fun h => ?_, fun hrelay hdirect => ?_, validateAddress_iff.mpr⟩
  · obtain ⟨relay, hshape⟩ | hshape := validateAddress_iff.mp h
    · obtain ⟨hmem, base, hdials⟩ := hshape.dials
      exact ⟨fun _ => ⟨relay, base, hdials⟩, fun hnot => absurd hmem hnot⟩
    · obtain ⟨hnot, hdials⟩ := hshape.dials
      exact ⟨fun hmem => absurd hmem hnot, fun _ => hdials⟩
  · have hnot : ¬ validateAddress address = .ok () := by
      rw [validateAddress_iff]
      exact not_or.mpr ⟨not_exists.mpr hrelay, hdirect⟩
    revert hnot
    unfold validateAddress
    split_ifs
    · simp
    · simp
    · simp

section Example

def relayPeer : PeerId := ⟨[1]⟩

def relayAddress : Multiaddr :=
  [.other [127, 0, 0, 1], .tcp 4001, .p2p relayPeer, .p2pCircuit]

theorem validateAddress_dials_relay : validateAddress relayAddress = .ok () ∧
    ∃ relay base, DialsThrough relay base relayAddress := by
  have haccepted : validateAddress relayAddress = .ok () := by decide
  exact ⟨haccepted, ((validateAddress_dials relayAddress).1 haccepted).1 (by decide)⟩

end Example

end ChatCommons
