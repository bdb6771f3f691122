import Mathlib

/-!
Parties that tell one another all they know. After a run, a party knows what those knew at the
start from whom word has come to it.
-/

namespace ChatCommons.Gossip

structure Telling (ι : Type) where
  teller : ι
  told : ι

variable {ι α : Type}

/-- Word of `p` comes to `q` along the run. -/
def Heard : List (Telling ι) → ι → ι → Prop
  | [], p, q => p = q
  | t :: run, p, q => Heard run p q ∨ p = t.teller ∧ Heard run t.told q

variable {run later : List (Telling ι)} {t : Telling ι} {p q : ι}

variable [DecidableEq ι]

def tell (knows : ι → Set α) (t : Telling ι) : ι → Set α :=
  Function.update knows t.told (knows t.told ∪ knows t.teller)

def tellAll (knows : ι → Set α) (run : List (Telling ι)) : ι → Set α := run.foldl tell knows

variable {knows : ι → Set α} {a : α}

@[simp] theorem tellAll_nil : tellAll knows [] = knows := rfl

@[simp] theorem tellAll_cons : tellAll knows (t :: run) = tellAll (tell knows t) run := rfl

theorem tellAll_append : tellAll knows (run ++ later) = tellAll (tellAll knows run) later :=
  List.foldl_append

theorem mem_tell : a ∈ tell knows t q ↔ a ∈ knows q ∨ q = t.told ∧ a ∈ knows t.teller := by
  rw [tell]
  by_cases hq : q = t.told
  · subst hq
    simp
  · rw [Function.update_of_ne hq]
    simp [hq]

theorem mem_tellAll : a ∈ tellAll knows run q ↔ ∃ p, Heard run p q ∧ a ∈ knows p := by
  induction run generalizing knows with
  | nil => simp [Heard]
  | cons t run ih =>
    rw [tellAll_cons, ih]
    simp only [mem_tell, Heard]
    constructor
    · rintro ⟨p, hp, hmem | ⟨rfl, hmem⟩⟩
      · exact ⟨p, Or.inl hp, hmem⟩
      · exact ⟨t.teller, Or.inr ⟨rfl, hp⟩, hmem⟩
    · rintro ⟨p, hp | ⟨rfl, hp⟩, hmem⟩
      · exact ⟨p, hp, Or.inl hmem⟩
      · exact ⟨t.told, hp, Or.inr ⟨rfl, hmem⟩⟩

/-- Nothing is made up. -/
theorem tell_from (h : a ∈ tell knows t q) : ∃ p, a ∈ knows p :=
  (mem_tell.mp h).elim (fun hold => ⟨q, hold⟩) fun hnew => ⟨t.teller, hnew.2⟩

end ChatCommons.Gossip
