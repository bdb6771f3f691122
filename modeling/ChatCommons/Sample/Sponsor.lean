import ChatCommons.Core.AncestrySpec
import ChatCommons.Sample.Brawl

/-!
In the community of `Club` the new member invites somebody beside his promotion: the
promotion is accepted first, but it is not below the invitation.
-/

namespace ChatCommons.Sample

open Collections Dag

def sponsorship : SignedEvent :=
  tell 2 [acceptance] (.memberInvite ((identity 100).publicKey crypto).toList)

def sponsorReader : PayloadReader :=
  reader (.memberInvite ((identity 100).publicKey crypto).toList :: clubPayloads)

def sponsorNode : CoreNode :=
  CoreNode.ofEvents club [genesis, invitation, acceptance, promotion, sponsorship]

def sponsorStored : List SignedEvent :=
  sponsorNode.known.toList.filterMap fun id => sponsorNode.store.rows[id]?

def sponsorPast : List EventId :=
  [genesis, invitation, acceptance, sponsorship].map SignedEvent.eventId

def sponsorDisclosed : List SignedEvent :=
  (sponsorNode.known.toList.filter fun x => x ∈ sponsorPast).filterMap
    fun x => sponsorNode.store.rows[x]?

theorem sponsor_checked :
    isListed crypto club [] [genesis, invitation, acceptance, promotion, sponsorship] = true ∧
      (sponsorNode.known.toList.filter fun x => x ∈ sponsorPast).length ≤ 256 ∧
      sponsorship.eventId ∈ sponsorNode.known ∧
      (∀ x ∈ sponsorPast, ∀ parent ∈ sponsorNode.parents x, parent ∈ sponsorPast) ∧
      acceptance.eventId ∈ sponsorNode.parents sponsorship.eventId ∧
      invitation.eventId ∈ sponsorNode.parents acceptance.eventId ∧
      genesis.eventId ∈ sponsorNode.parents invitation.eventId := by decide +kernel

theorem sponsorNode_sound : sponsorNode.Sound crypto :=
  (listed_of_isListed sponsor_checked.1).sound

theorem sponsor_listed : sponsorNode.allEvents crypto = .ok sponsorStored :=
  sponsorNode_sound.allEvents_eq

theorem sponsor_reaches {x : EventId} :
    Reaches sponsorNode.parents x sponsorship.eventId ↔ x ∈ sponsorPast := by
  obtain ⟨_, _, _, hclosed, hacceptance, hinvitation, hgenesis⟩ := sponsor_checked
  constructor
  · intro hreach
    exact Closed.reaches (S := {y | y ∈ sponsorPast}) hclosed hreach (by simp [sponsorPast])
  · intro hx
    have h1 : Reaches sponsorNode.parents acceptance.eventId sponsorship.eventId :=
      .single hacceptance
    have h2 : Reaches sponsorNode.parents invitation.eventId sponsorship.eventId :=
      .head hinvitation h1
    simp only [sponsorPast, List.map_cons, List.map_nil, List.mem_cons, List.not_mem_nil,
      or_false] at hx
    rcases hx with rfl | rfl | rfl | rfl
    · exact .head hgenesis h2
    · exact h2
    · exact h1
    · exact .refl

theorem sponsor_disclosed :
    sponsorNode.ancestry crypto sponsorship.eventId 256 = .ok sponsorDisclosed := by
  have hpast : sponsorNode.past sponsorship.eventId =
      sponsorNode.known.toList.filter fun x => x ∈ sponsorPast :=
    List.filter_congr fun x _ => decide_eq_decide.mpr sponsor_reaches
  obtain ⟨_, hsmall, hknown, _⟩ := sponsor_checked
  rw [CoreNode.ancestry_eq sponsorNode_sound hknown, CoreNode.pastEvents, hpast, if_pos hsmall]
  rfl

theorem sponsor_resolved : ∃ resolution,
    resolve crypto sponsorReader sponsorStored = .ok resolution ∧
      sponsorship.eventId ∈ resolution.snapshot.activeInvitations := by
  have h : resolved sponsorReader sponsorStored (fun resolution =>
      sponsorship.eventId ∈ resolution.snapshot.activeInvitations) = true := by decide +kernel
  obtain ⟨resolution, hresolve, hfacts⟩ := exists_of_resolved h
  exact ⟨resolution, hresolve, of_decide_eq_true hfacts⟩

theorem sponsor_joined : ∃ joined,
    resolve crypto sponsorReader sponsorDisclosed = .ok joined ∧
      sponsorship.eventId ∉ joined.snapshot.activeInvitations := by
  have h : resolved sponsorReader sponsorDisclosed (fun resolution =>
      sponsorship.eventId ∉ resolution.snapshot.activeInvitations) = true := by decide +kernel
  obtain ⟨resolution, hresolve, hfacts⟩ := exists_of_resolved h
  exact ⟨resolution, hresolve, of_decide_eq_true hfacts⟩

end ChatCommons.Sample
