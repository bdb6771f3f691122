import ChatCommons.General.Dag

/-!
Two peers reconcile the closed sets of nodes they store by exchanging heads,
requests and nodes. Any message in flight may be delivered next, and how a
peer cuts an answer into messages is left open.
-/

namespace ChatCommons.AntiEntropy

open Dag

inductive Side
  | left | right
deriving DecidableEq

def Side.other : Side → Side
  | .left => .right
  | .right => .left

@[simp] theorem Side.other_other (d : Side) : d.other.other = d := by cases d <;> rfl

@[simp] theorem Side.other_ne (d : Side) : d.other ≠ d := by cases d <;> decide

theorem Side.eq_or_other (d n : Side) : d = n ∨ d = n.other := by cases d <;> cases n <;> simp [other]

inductive Message (ι : Type)
  | hello
  | heads (ids : List ι)
  | want (ids : List ι)
  | events (ids : List ι)

variable {ι : Type}

def Message.isHello : Message ι → Bool
  | .hello => true
  | _ => false

/-- `held` may exceed `stored`: nodes on disk that are not part of the closed set. -/
structure Peer (ι : Type) where
  held : Set ι
  stored : Set ι
  waiting : Set ι

def Peer.Unknown (p : Peer ι) (x : ι) : Prop := x ∉ p.stored ∧ x ∉ p.waiting

/-- The replies are messages of one form, none empty, that name exactly the nodes of `ids`. -/
def Covers (form : List ι → Message ι) (ids : Set ι) (replies : List (Message ι)) : Prop :=
  (∀ m ∈ replies, ∃ l, l ≠ [] ∧ m = form l ∧ ∀ x ∈ l, x ∈ ids) ∧
    ∀ x ∈ ids, ∃ l, form l ∈ replies ∧ x ∈ l

theorem Covers.congr {form : List ι → Message ι} {s t : Set ι} {replies : List (Message ι)}
    (h : Covers form s replies) (hst : ∀ x, x ∈ s ↔ x ∈ t) : Covers form t replies := by
  rwa [show t = s from Set.ext fun x => (hst x).symm]

variable (parents : ι → List ι)

/-- What a peer is left with after it takes in the nodes `l`. -/
structure Accepts (p : Peer ι) (l : List ι) (p' : Peer ι) : Prop where
  stored_mono : ∀ x ∈ p.stored, x ∈ p'.stored
  held_eq : ∀ x, x ∈ p'.held ↔ x ∈ p.held ∨ x ∈ p'.stored
  known_iff : ∀ x, ¬ p'.Unknown x ↔ ¬ p.Unknown x ∨ x ∈ l
  blocked : ∀ x ∈ p'.waiting, ∃ y ∈ parents x, y ∉ p'.stored
  closed : Closed parents p'.stored
  grounded : ∀ x ∈ p'.stored, Grounded parents x

inductive Receives (p : Peer ι) : Message ι → Peer ι → List (Message ι) → Prop
  | hello {replies} : Covers .heads {h | IsHead parents p.stored h} replies →
      Receives p .hello p replies
  | helloEmpty : (∀ x, x ∉ p.stored) → Receives p .hello p [.heads []]
  | heads {l replies} : Covers .want {x | x ∈ l ∧ p.Unknown x} replies →
      Receives p (.heads l) p replies
  | want {l replies} : Covers .events {x | x ∈ l ∧ x ∈ p.held} replies →
      Receives p (.want l) p replies
  | events {l p' replies} : Accepts parents p l p' →
      Covers .want {y | (∃ x ∈ p'.waiting, y ∈ parents x) ∧ p'.Unknown y} replies →
      Receives p (.events l) p' replies

structure Session (ι : Type) where
  peer : Side → Peer ι
  flight : List (Side × Message ι)
  errors : ℕ := 0

def Session.greetings (s : Session ι) (n : Side) : ℕ :=
  s.flight.countP fun e => decide (e.1 = n) && e.2.isHello

inductive Step (s : Session ι) : Session ι → Prop
  | receive {pre post d m p' replies} : s.flight = pre ++ (d, m) :: post →
      Receives parents (s.peer d) m p' replies →
      Step s ⟨Function.update s.peer d p', pre ++ post ++ replies.map (d.other, ·), s.errors⟩
  | fail {pre post e} : s.flight = pre ++ e :: post →
      Step s { s with flight := pre ++ post, errors := s.errors + 1 }

def Session.start (peer : Side → Peer ι) : Session ι :=
  { peer, flight := [(.right, .hello), (.left, .hello)] }

variable {parents}

theorem forall_update {α : Type} {peer : Side → α} {P : α → Prop} (hall : ∀ n, P (peer n))
    {d : Side} {p' : α} (hp : P p') (n : Side) : P (Function.update peer d p' n) := by
  by_cases hn : n = d
  · subst hn; simpa using hp
  · simpa [hn] using hall n

theorem Receives.eq_or_events {p p' : Peer ι} {m : Message ι} {replies : List (Message ι)}
    (h : Receives parents p m p' replies) : p' = p ∨ ∃ l, m = .events l ∧ Accepts parents p l p' := by
  cases h with
  | hello _ => exact Or.inl rfl
  | helloEmpty _ => exact Or.inl rfl
  | heads _ => exact Or.inl rfl
  | want _ => exact Or.inl rfl
  | @events l _ _ ha _ => exact Or.inr ⟨l, rfl, ha⟩

theorem Receives.unknown_mono {p p' : Peer ι} {m : Message ι} {replies : List (Message ι)}
    (h : Receives parents p m p' replies) {x : ι} (hx : p'.Unknown x) : p.Unknown x := by
  rcases h.eq_or_events with rfl | ⟨l, rfl, ha⟩
  · exact hx
  · by_contra hp
    exact (ha.known_iff x).mpr (Or.inl hp) hx

theorem Receives.stored_mono {p p' : Peer ι} {m : Message ι} {replies : List (Message ι)}
    (h : Receives parents p m p' replies) {x : ι} (hx : x ∈ p.stored) : x ∈ p'.stored := by
  rcases h.eq_or_events with rfl | ⟨l, rfl, ha⟩
  · exact hx
  · exact ha.stored_mono x hx

theorem Receives.not_hello {p p' : Peer ι} {m : Message ι} {replies : List (Message ι)}
    (h : Receives parents p m p' replies) : ∀ r ∈ replies, r.isHello = false := by
  have hcovers : ∀ {form : List ι → Message ι} {ids : Set ι},
      (∀ l, (form l).isHello = false) → Covers form ids replies →
        ∀ r ∈ replies, r.isHello = false := by
    intro form ids hform hc r hr
    obtain ⟨l, _, rfl, _⟩ := hc.1 r hr
    exact hform l
  cases h with
  | hello hc => exact hcovers (fun _ => rfl) hc
  | helloEmpty _ => simp [Message.isHello]
  | heads hc => exact hcovers (fun _ => rfl) hc
  | want hc => exact hcovers (fun _ => rfl) hc
  | events _ hc => exact hcovers (fun _ => rfl) hc

end ChatCommons.AntiEntropy
