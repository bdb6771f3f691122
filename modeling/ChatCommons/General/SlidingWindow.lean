import Mathlib

/-!
A limiter that keeps the readings at which it has admitted a call, drops those that have expired
from the front, and admits a call while it keeps fewer than the maximum. Readings may arrive out
of order.
-/

namespace ChatCommons.SlidingWindow

variable {Time : Type} [LinearOrder Time] (back : Time → Time) (maximum : ℕ)

/-- `back now` is where the window that ends at `now` begins. -/
def expire (kept : List Time) (now : Time) : List Time := kept.dropWhile fun t => t ≤ back now

def next (kept : List Time) (now : Time) : List Time :=
  if maximum ≤ (expire back kept now).length then expire back kept now
  else expire back kept now ++ [now]

structure Call (Time : Type) where
  reading : Time
  admitted : Bool
deriving DecidableEq

/-- The calls so far, and what is kept after them. -/
inductive Runs : List (Call Time) → List Time → Prop
  | nil : Runs [] []
  | snoc {calls : List (Call Time)} {kept : List Time} (h : Runs calls kept) (now : Time) :
    Runs (calls ++ [⟨now, !decide (maximum ≤ (expire back kept now).length)⟩])
      (next back maximum kept now)

def admitted (calls : List (Call Time)) : List Time :=
  (calls.filter Call.admitted).map Call.reading

variable {back : Time → Time} {maximum : ℕ} {calls before after : List (Call Time)}
  {kept : List Time} {call : Call Time} {now hi : Time}

theorem admitted_snoc : admitted (calls ++ [call]) =
    admitted calls ++ if call.admitted then [call.reading] else [] := by
  rw [admitted, admitted, List.filter_append, List.map_append]
  cases hcall : call.admitted with
  | true => simp [hcall]
  | false => simp [hcall]

theorem countP_eq (p : Time → Bool) :
    calls.countP (fun call => call.admitted && p call.reading) = (admitted calls).countP p := by
  rw [admitted, List.countP_map, List.countP_filter]
  apply List.countP_congr
  simp [and_comm]

/-- What was admitted and is no longer kept had expired at some reading. -/
theorem Runs.kept_suffix (h : Runs back maximum calls kept) :
    kept.length ≤ maximum ∧ ∃ gone, admitted calls = gone ++ kept ∧
      ∀ t ∈ gone, ∃ call ∈ calls, t ≤ back call.reading := by
  induction h with
  | nil => exact ⟨Nat.zero_le _, [], rfl, by simp⟩
  | @snoc calls kept h now ih =>
    obtain ⟨hlength, gone, hadmitted, hgone⟩ := ih
    have hsplit : kept.takeWhile (fun t => t ≤ back now) ++ expire back kept now = kept :=
      List.takeWhile_append_dropWhile
    have hexpired : ∀ t ∈ gone ++ kept.takeWhile (fun t => t ≤ back now),
        ∃ call ∈ calls ++ [⟨now, !decide (maximum ≤ (expire back kept now).length)⟩],
          t ≤ back call.reading := by
      intro t ht
      rcases List.mem_append.mp ht with hold | hnew
      · obtain ⟨call, hcall, hle⟩ := hgone t hold
        exact ⟨call, List.mem_append_left _ hcall, hle⟩
      · have hle := List.mem_takeWhile_imp hnew
        exact ⟨_, List.mem_append_right _ (List.mem_singleton_self _), of_decide_eq_true hle⟩
    have hlast : admitted calls = (gone ++ kept.takeWhile fun t => t ≤ back now) ++
        expire back kept now := by
      rw [hadmitted, List.append_assoc, hsplit]
    have hshorter : (expire back kept now).length ≤ kept.length :=
      (List.dropWhile_suffix _).length_le
    rw [next]
    by_cases hfull : maximum ≤ (expire back kept now).length
    · rw [if_pos hfull]
      refine ⟨by omega, _, ?_, hexpired⟩
      rw [admitted_snoc, hlast]
      simp [hfull]
    · rw [if_neg hfull]
      refine ⟨by simpa using Nat.lt_of_not_le hfull, _, ?_, hexpired⟩
      rw [admitted_snoc, hlast]
      simp [hfull]

/-- In whatever order the readings arrive, no more than the maximum has been admitted since the
window of the highest reading began. -/
theorem Runs.bounded (h : Runs back maximum calls kept) (hback : Monotone back)
    (hhi : ∀ call ∈ calls, call.reading ≤ hi) :
    calls.countP (fun call => call.admitted && back hi < call.reading) ≤ maximum := by
  obtain ⟨hlength, gone, hadmitted, hgone⟩ := h.kept_suffix
  rw [countP_eq fun t => decide (back hi < t), hadmitted, List.countP_append]
  have hnone : gone.countP (fun t => decide (back hi < t)) = 0 := by
    rw [List.countP_eq_zero]
    intro t ht
    obtain ⟨call, hcall, hle⟩ := hgone t ht
    simpa using hle.trans (hback (hhi call hcall))
  have hmost : kept.countP (fun t => decide (back hi < t)) ≤ kept.length := List.countP_le_length
  omega

/-- On sorted readings dropping from the front drops all that has expired. -/
theorem expire_eq_filter (hsorted : kept.Pairwise (· ≤ ·)) :
    expire back kept now = kept.filter fun t => back now < t := by
  induction kept with
  | nil => rfl
  | cons t kept ih =>
    obtain ⟨hle, hsorted⟩ := List.pairwise_cons.mp hsorted
    by_cases ht : t ≤ back now
    · rw [List.filter_cons_of_neg (by simpa using ht), ← ih hsorted, expire, expire,
        List.dropWhile_cons_of_pos (by simpa using ht)]
    · have hall : ∀ u ∈ t :: kept, back now < u := by
        intro u hu
        rcases List.mem_cons.mp hu with rfl | hu
        · exact not_le.mp ht
        · exact (not_le.mp ht).trans_le (hle u hu)
      rw [expire, List.dropWhile_cons_of_neg (by simpa using ht),
        List.filter_eq_self.mpr fun u hu => decide_eq_true (hall u hu)]

theorem admitted_sorted (hsorted : calls.Pairwise fun a b => a.reading ≤ b.reading) :
    (admitted calls).Pairwise (· ≤ ·) :=
  List.pairwise_map.mpr (hsorted.filter _)

/-- Where readings arrive in order, a call is refused exactly when the maximum has been admitted
in its window. -/
theorem Runs.refused_iff (h : Runs back maximum before kept) (hback : Monotone back)
    (hsorted : before.Pairwise fun a b => a.reading ≤ b.reading)
    (hnow : ∀ call ∈ before, call.reading ≤ now) :
    maximum ≤ (expire back kept now).length ↔
      maximum ≤ before.countP fun call => call.admitted && back now < call.reading := by
  obtain ⟨_, gone, hadmitted, hgone⟩ := h.kept_suffix
  have hkept : kept.Pairwise (· ≤ ·) := by
    have hall := admitted_sorted hsorted
    rw [hadmitted, List.pairwise_append] at hall
    exact hall.2.1
  have hnone : gone.countP (fun t => decide (back now < t)) = 0 := by
    rw [List.countP_eq_zero]
    intro t ht
    obtain ⟨call, hcall, hle⟩ := hgone t ht
    simpa using hle.trans (hback (hnow call hcall))
  rw [countP_eq fun t => decide (back now < t), hadmitted, List.countP_append, hnone, Nat.zero_add,
    expire_eq_filter hkept, List.countP_eq_length_filter]

end ChatCommons.SlidingWindow
