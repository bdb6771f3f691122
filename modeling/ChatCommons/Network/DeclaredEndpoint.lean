import ChatCommons.Model.Commands
import ChatCommons.Network.InvitationCode
import ChatCommons.Network.Routes
import ChatCommons.Sample.Brawl

/-!
The endpoint that the commands take from the declaration of a home server is the first one that
parses; it is the first supported one exactly when nothing before that one parses.
-/

namespace ChatCommons

open Collections

variable {C : Crypto} {J : PayloadReader} {P : PeerNames} {F : TextForms}
  {binding : HomeServerBinding} {peer : PeerId} {address : Multiaddr} {before after : List String}
  {endpoint : String}

theorem createCode_supported {package : ByteString} (h : validateAddress address = .ok ()) :
    createCode F package peer address ≠ .error .invalidAddress := by
  unfold createCode
  rw [h]
  dsimp only
  split_ifs
  all_goals
    intro heq
    cases heq

theorem createAtHeads_error {core : CoreNode} {user : Identity} {community : CommunityId}
    {timestampMs : Int64} {payload : ChatPayload} {error : CliError}
    (h : core.createAtHeads C user community timestampMs payload = .error error) :
    ∃ cause, error = .node cause := by
  unfold CoreNode.createAtHeads at h
  cases hheads : core.heads C with
  | error cause =>
    rw [hheads] at h
    exact ⟨cause, (Except.error.inj h).symm⟩
  | ok heads =>
    rw [hheads] at h
    cases h

theorem resolveCli_error {events : List SignedEvent} {error : CliError}
    (h : resolveCli C J events = .error error) : ∃ cause, error = .chat cause := by
  unfold resolveCli at h
  cases hresolve : resolve C J events with
  | error cause =>
    rw [hresolve] at h
    exact ⟨cause, (Except.error.inj h).symm⟩
  | ok resolution =>
    rw [hresolve] at h
    cases h

theorem createInvite_supported {core : CoreNode} {user : Identity} {device : DeviceIdentity}
    {community : CommunityId} {timestampMs : Int64} {capability : InviteCapability}
    {events : List SignedEvent} {profile : ChatResolution}
    (htarget : homeServerTarget P F binding = .ok (peer, address))
    (haccepted : validateAddress address = .ok ()) (hevents : core.allEventsCli C = .ok events)
    (hprofile : resolveCli C J events = .ok profile)
    (hserver : profile.snapshot.homeServer = some binding) :
    (commandCreateInvite C J P F core user device community none timestampMs capability).2 ≠
      .error (.bootstrap .invalidAddress) := by
  unfold commandCreateInvite
  simp only [hevents, hprofile, hserver, htarget, bind, Except.bind, pure, Except.pure]
  cases hcreated : core.createAtHeads C user community timestampMs
      (capability.invitationPayload C) with
  | error error =>
    obtain ⟨cause, rfl⟩ := createAtHeads_error hcreated
    simp
  | ok invitation =>
    dsimp only
    cases hresolved : resolveCli C J (events ++ [invitation]) with
    | error error =>
      obtain ⟨cause, rfl⟩ := resolveCli_error hresolved
      simp
    | ok resolution =>
      dsimp only
      by_cases hrejected : invitation.eventId ∉ resolution.snapshot.eventIds ∨
          invitation.eventId ∉ resolution.snapshot.activeInvitations
      · rw [if_pos hrejected]
        simp
      · rw [if_neg hrejected]
        simp only [InviteCapability.encodePackage, liftInvite]
        cases hcode : createCode F (capability.package community invitation.eventId).toJson peer
            address with
        | error error =>
          simp only [liftBootstrap]
          intro heq
          obtain rfl := CliError.bootstrap.inj (Except.error.inj heq)
          exact createCode_supported haccepted hcode
        | ok code =>
          simp only [liftBootstrap]
          cases core.ingest C [invitation] with
          | mk core result => cases result <;> simp

/-- `create-invite` and `sync-home-server` work with the declared endpoint. -/
structure Usable (C : Crypto) (J : PayloadReader) (P : PeerNames) (F : TextForms)
    (binding : HomeServerBinding) (peer : PeerId) (address : Multiaddr) : Prop where
  target : homeServerTarget P F binding = .ok (peer, address)
  invites : ∀ (core : CoreNode) (user : Identity) (device : DeviceIdentity)
    (community : CommunityId) (timestampMs : Int64) (capability : InviteCapability)
    (events : List SignedEvent) (profile : ChatResolution), core.allEventsCli C = .ok events →
      resolveCli C J events = .ok profile → profile.snapshot.homeServer = some binding →
        (commandCreateInvite C J P F core user device community none timestampMs capability).2 ≠
          .error (.bootstrap .invalidAddress)
  dials : (∃ relay base, DialsThrough relay base address) ∨ DialsDirectly address

/-- Let `endpoint` be the first supported endpoint of a declaration. The commands use it exactly
when no endpoint before it parses. -/
theorem declared_endpoint_usable_iff (hkey : P binding.serverPublicKey = some peer)
    (hsplit : binding.endpoints = before ++ endpoint :: after)
    (hread : F.readAddress endpoint = some address) (haccepted : validateAddress address = .ok ())
    (hfirst : ∀ earlier ∈ before, ∀ other, F.readAddress earlier = some other →
      validateAddress other ≠ .ok ()) :
    Usable C J P F binding peer address ↔
      ∀ earlier ∈ before, F.readAddress earlier = none := by
  have hfound : homeServerTarget P F binding =
      .ok (peer, (before.findSome? F.readAddress).getD address) := by
    rw [homeServerTarget, hkey, hsplit, List.findSome?_append, List.findSome?_cons, hread]
    cases before.findSome? F.readAddress <;> rfl
  constructor
  · intro h
    apply List.findSome?_eq_none_iff.mp
    cases hearlier : before.findSome? F.readAddress with
    | none => rfl
    | some other =>
      obtain ⟨text, htext, hother⟩ := List.exists_of_findSome?_eq_some hearlier
      have hsame := hfound.symm.trans h.target
      rw [hearlier, Option.getD_some] at hsame
      obtain rfl : other = address := (Prod.mk.inj (Except.ok.inj hsame)).2
      exact absurd haccepted (hfirst text htext other hother)
  · intro h
    rw [List.findSome?_eq_none_iff.mpr h, Option.getD_none] at hfound
    refine ⟨hfound, fun core user device community timestampMs capability events profile hevents
      hprofile hserver => createInvite_supported hfound haccepted hevents hprofile hserver, ?_⟩
    obtain ⟨relay, hshape⟩ | hshape := validateAddress_iff.mp haccepted
    · exact Or.inl ⟨relay, hshape.dials.2⟩
    · exact Or.inr hshape.dials.2

section Example

open Sample

def tcpAddress : Multiaddr := [.other [127, 0, 0, 1], .tcp 4001]

def serverForms : TextForms :=
  { ticketForms with
    readAddress := fun text =>
      if text = "/ip4/127.0.0.1/tcp/4001" then some tcpAddress
      else if text = "/ip4/127.0.0.1/udp/4001/quic-v1" then some endpointAddress
      else none }

/-- Every key has a name, the key behind a header of six bytes. -/
def serverNames : PeerNames := fun publicKey =>
  some ⟨[0, 36, 8, 1, 18, 32] ++ publicKey.toList⟩

def declaration (endpoints : List String) : SignedEvent :=
  tell 1 [genesis] (.homeServerSet ((identity 5).publicKey crypto).toList endpoints)

def declaredReader (endpoints : List String) : PayloadReader :=
  reader (.homeServerSet ((identity 5).publicKey crypto).toList endpoints :: clubPayloads)

def declaredBinding (endpoints : List String) : HomeServerBinding where
  declaration := (declaration endpoints).eventId
  serverId := HomeServerId.fromPublicKey crypto ((identity 5).publicKey crypto)
  serverPublicKey := (identity 5).publicKey crypto
  endpoints := endpoints
  historyHeads := [genesis.eventId]

/-- A URL before the address does no harm. -/
theorem declared_endpoint_usable_url :
    Usable crypto clubReader serverNames serverForms
      (declaredBinding ["https://club.example", "/ip4/127.0.0.1/udp/4001/quic-v1"])
      endpointPeer endpointAddress ↔
    ∀ earlier ∈ ["https://club.example"], serverForms.readAddress earlier = none := by
  have hnone : serverForms.readAddress "https://club.example" = none := by decide +kernel
  have hsplit : (declaredBinding ["https://club.example",
      "/ip4/127.0.0.1/udp/4001/quic-v1"]).endpoints =
        ["https://club.example"] ++ "/ip4/127.0.0.1/udp/4001/quic-v1" :: [] := rfl
  refine declared_endpoint_usable_iff rfl hsplit (by decide +kernel) (by decide) ?_
  intro earlier hmem other hread
  rw [List.mem_singleton.mp hmem, hnone] at hread
  cases hread

def tcpEndpoints : List String := ["/ip4/127.0.0.1/tcp/4001", "/ip4/127.0.0.1/udp/4001/quic-v1"]

/-- The address for TCP before the one for QUIC is taken, and no invitation can be written. -/
theorem declared_endpoint_shadowed :
    (∃ profile, resolve crypto (declaredReader tcpEndpoints) [genesis, declaration tcpEndpoints] =
        .ok profile ∧ profile.snapshot.homeServer = some (declaredBinding tcpEndpoints)) ∧
      serverForms.readAddress "/ip4/127.0.0.1/udp/4001/quic-v1" = some endpointAddress ∧
      validateAddress endpointAddress = .ok () ∧
      homeServerTarget serverNames serverForms (declaredBinding tcpEndpoints) =
        .ok (endpointPeer, tcpAddress) ∧
      ∀ package, 1 ≤ package.length → package.length ≤ 451 →
        createCode serverForms package endpointPeer tcpAddress = .error .invalidAddress := by
  have hresolved : resolved (declaredReader tcpEndpoints) [genesis, declaration tcpEndpoints]
      (fun profile => profile.snapshot.homeServer = some (declaredBinding tcpEndpoints)) = true := by
    decide +kernel
  obtain ⟨profile, hresolve, hserver⟩ := exists_of_resolved hresolved
  refine ⟨⟨profile, hresolve, of_decide_eq_true hserver⟩, by decide +kernel, by decide,
    by decide +kernel, fun package hnonempty hsmall => ?_⟩
  have hrefused : validateAddress tcpAddress = .error .invalidAddress := by decide
  unfold createCode
  rw [package_accepted hnonempty hsmall, hrefused]
  rfl

end Example

end ChatCommons
