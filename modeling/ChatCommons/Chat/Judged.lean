import ChatCommons.Chat.Verdict
import ChatCommons.General.Dag

namespace ChatCommons

open Collections Candidates

variable {C : Crypto} {k k' : Candidates} {ids others done rest : List EventId} {x y : EventId}

/-- The list holds the events that are accepted when the list is. -/
structure Judged (C : Crypto) (k : Candidates) (ids : List EventId) : Prop where
  sorted : ids.Pairwise k.Before
  accepted : ∀ x, x ∈ ids ↔ x ∈ k.order ∧ k.verdict C ids x = .ok ()

section Final

theorem final_eq (hsplit : k.order = done ++ x :: rest) : k.final C =
    rest.foldl (evaluate C k) (evaluate C k (done.foldl (evaluate C k) k.start) x) := by
  rw [Candidates.final, hsplit, List.foldl_append, List.foldl_cons]

theorem order_split (hx : x ∈ k.order) : ∃ done rest, k.order = done ++ x :: rest ∧
    x ∉ done ∧ x ∉ rest := by
  obtain ⟨done, rest, hsplit⟩ := List.append_of_mem hx
  have hnodup := k.order_nodup
  rw [hsplit] at hnodup
  have hparts := List.nodup_append.mp hnodup
  exact ⟨done, rest, hsplit, fun h => hparts.2.2 x h x (by simp) rfl,
    (List.nodup_cons.mp hparts.2.1).1⟩

variable (hk : k.Proper)
include hk

theorem accepted_iff_verdict (hx : x ∈ k.order) : x ∈ (k.final C).acceptedInOrder ↔
    k.verdict C (k.final C).acceptedInOrder x = .ok () := by
  obtain ⟨done, rest, hsplit, hdone, hrest⟩ := order_split hx
  have hnot : x ∉ (done.foldl (evaluate C k) k.start).acceptedInOrder := fun h =>
    hdone ((evaluated_upto (C := C) hk.toComplete hsplit).sublist.subset h)
  have heval := evaluate_verdict (C := C) hk hsplit
  obtain ⟨more, hmore, hfinal⟩ := foldl_accepted (C := C) (k := k) rest
    (evaluate C k (done.foldl (evaluate C k) k.start) x)
  rw [← final_eq hsplit] at hfinal
  cases hverdict : k.verdict C (k.final C).acceptedInOrder x with
  | ok u =>
    rw [hverdict] at heval
    refine ⟨fun _ => rfl, fun _ => ?_⟩
    rw [hfinal, heval]
    simp
  | error reason =>
    rw [hverdict] at heval
    refine ⟨fun hmem => ?_, fun h => by cases h⟩
    rw [hfinal, heval] at hmem
    rcases List.mem_append.mp hmem with hmem | hmem
    · exact absurd hmem hnot
    · exact absurd (hmore x hmem) hrest

theorem judged_final : Judged C k (k.final C).acceptedInOrder where
  sorted := k.order_pairwise.sublist (evaluated_final hk.toComplete).sublist
  accepted x := by
    have hsub := (evaluated_final (C := C) hk.toComplete).sublist
    exact ⟨fun hx => ⟨hsub.subset hx, (accepted_iff_verdict hk (hsub.subset hx)).mp hx⟩,
      fun h => (accepted_iff_verdict hk h.1).mpr h.2⟩

theorem final_rejected (hx : x ∈ k.order) : (k.final C).rejected[x]? =
    match k.verdict C (k.final C).acceptedInOrder x with
    | .ok _ => none
    | .error reason => some reason := by
  obtain ⟨done, rest, hsplit, hdone, hrest⟩ := order_split hx
  have heval := evaluate_verdict (C := C) hk hsplit
  have hbefore : (done.foldl (evaluate C k) k.start).rejected[x]? = none := by
    rw [foldl_rejected hdone]
    exact not_mem_map.mp (hk.decoded x (mem_order.mp hx).1)
  have hfinal : (k.final C).rejected[x]? =
      (evaluate C k (done.foldl (evaluate C k) k.start) x).rejected[x]? := by
    rw [final_eq hsplit, foldl_rejected hrest]
  rw [hfinal, heval]
  cases k.verdict C (k.final C).acceptedInOrder x with
  | ok u => exact hbefore
  | error reason => simp

end Final

theorem final_rejected_outside (hx : x ∉ k.order) :
    (k.final C).rejected[x]? = k.rejected[x]? := by
  rw [Candidates.final, foldl_rejected hx]
  rfl

section Lists

theorem Judged.subset_order (h : Judged C k ids) (hx : x ∈ ids) : x ∈ k.order :=
  ((h.accepted x).mp hx).1

def Candidates.Rooted (k : Candidates) (ids : List EventId) : Prop :=
  ∀ x ∈ ids, ∀ parent ∈ k.parents x, parent ∈ ids

theorem Judged.rooted (h : Judged C k ids) : k.Rooted ids := fun x hx parent hp =>
  (parents_of_verdict ((h.accepted x).mp hx).2 parent hp).2

theorem Judged.closed (h : Judged C k ids) (hx : x ∈ ids) : ∀ parent ∈ k.parents x, parent ∈ ids :=
  h.rooted x hx

theorem eq_of_sorted (hids : ids.Pairwise k.Before) (hothers : others.Pairwise k.Before)
    (hmem : ∀ x, x ∈ ids ↔ x ∈ others) : ids = others := by
  have : Std.Antisymm k.Before := ⟨fun _ _ h h' => absurd h' h.asymm⟩
  have : Std.Irrefl k.Before := ⟨fun _ => Before.irrefl⟩
  exact hids.eq_of_mem_iff hothers hmem

theorem earlier_sorted (hids : ids.Pairwise k.Before) : (k.earlier ids x).Pairwise k.Before :=
  hids.filter _

theorem verdict_congr (hparents : ∀ parent ∈ k.parents x, parent ∈ ids ↔ parent ∈ others)
    (hearlier : k.earlier ids x = k.earlier others x) :
    k.verdict C ids x = k.verdict C others x := by
  have hany : (k.parents x).any (fun parent => parent ∉ ids) =
      (k.parents x).any fun parent => parent ∉ others := by
    rw [Bool.eq_iff_iff]
    simp only [List.any_eq_true, decide_eq_true_eq]
    exact exists_congr fun parent => and_congr_right fun hp => not_congr (hparents parent hp)
  rw [verdict, verdict, hearlier, hany]

end Lists

section Same

structure SameAt (k k' : Candidates) (x : EventId) : Prop where
  byId : k'.byId[x]? = k.byId[x]?
  payloads : k'.payloads[x]? = k.payloads[x]?
  authors : k'.authors[x]? = k.authors[x]?
  rejected : k'.rejected[x]? = k.rejected[x]?

theorem SameAt.refl : SameAt k k x := ⟨rfl, rfl, rfl, rfl⟩

theorem SameAt.symm (h : SameAt k k' x) : SameAt k' k x :=
  ⟨h.byId.symm, h.payloads.symm, h.authors.symm, h.rejected.symm⟩

theorem SameAt.parents_eq (h : SameAt k k' x) : k'.parents x = k.parents x := by
  rw [Candidates.parents, Candidates.parents, h.byId]

theorem SameAt.mem_byId (h : SameAt k k' x) : x ∈ k'.byId ↔ x ∈ k.byId := by
  rw [mem_iff, mem_iff, h.byId]

theorem SameAt.mem_payloads (h : SameAt k k' x) : x ∈ k'.payloads ↔ x ∈ k.payloads := by
  rw [mem_iff, mem_iff, h.payloads]

theorem SameAt.sortKey_eq (h : SameAt k k' x) : k'.sortKey x = k.sortKey x := by
  rw [Candidates.sortKey, Candidates.sortKey, Candidates.priority, Candidates.priority, h.payloads]

theorem stateAfter_eq_of_same (h : ∀ y ∈ ids, SameAt k k' y) :
    k'.stateAfter C ids = k.stateAfter C ids := by
  induction ids using List.reverseRecOn with
  | nil => rfl
  | append_singleton ids y ih =>
    have hy := h y (by simp)
    have hids := ih fun z hz => h z (List.mem_append_left _ hz)
    rw [stateAfter, stateAfter, List.foldl_append, List.foldl_append, ← stateAfter, ← stateAfter,
      hids]
    simp only [List.foldl_cons, List.foldl_nil, hy.byId, hy.payloads, hy.authors]

section Rooted

variable (hids : k.Rooted ids) (hsame : ∀ y ∈ ids, SameAt k k' y)
include hids hsame

theorem low_iff_of_rooted (hx : SameAt k k' x) (hroot : ∀ parent ∈ k.parents x, parent ∈ ids)
    (n : ℕ) : Rounds.Low k'.parents (keySet k'.payloads) n x ↔
      Rounds.Low k.parents (keySet k.payloads) n x := by
  refine Rounds.low_congr
    (S := {z | SameAt k k' z ∧ ∀ parent ∈ k.parents z, parent ∈ ids})
    (fun z hz => hz.1.parents_eq) (fun z hz p hp => ?_) (fun z hz p hp _ => ?_) ⟨hx, hroot⟩ n
  · rw [mem_keySet, mem_keySet, (hsame p (hz.2 p hp)).mem_payloads]
  · exact ⟨hsame p (hz.2 p hp), hids p (hz.2 p hp)⟩

theorem mem_order_iff_of_rooted (hx : SameAt k k' x)
    (hroot : ∀ parent ∈ k.parents x, parent ∈ ids) : x ∈ k'.order ↔ x ∈ k.order := by
  simp only [mem_order, hx.mem_payloads, low_iff_of_rooted hids hsame hx hroot]

theorem before_iff_of_rooted (hy : y ∈ ids) (hx : SameAt k k' x)
    (hroot : ∀ parent ∈ k.parents x, parent ∈ ids) : k'.Before y x ↔ k.Before y x := by
  have hy' := low_iff_of_rooted hids hsame (hsame y hy) (hids y hy)
  have hx' := low_iff_of_rooted hids hsame hx hroot
  simp only [Candidates.Before, Rounds.Before, hy', hx', hx.sortKey_eq, (hsame y hy).sortKey_eq]

theorem earlier_eq_of_rooted (hx : SameAt k k' x)
    (hroot : ∀ parent ∈ k.parents x, parent ∈ ids) : k'.earlier ids x = k.earlier ids x := by
  refine List.filter_congr fun y hy => ?_
  exact decide_eq_decide.mpr (before_iff_of_rooted hids hsame hy hx hroot)

theorem verdict_eq_of_rooted (hx : SameAt k k' x)
    (hroot : ∀ parent ∈ k.parents x, parent ∈ ids) : k'.verdict C ids x = k.verdict C ids x := by
  have hmissing : (k.parents x).any (fun parent => parent ∉ k'.byId) =
      (k.parents x).any fun parent => parent ∉ k.byId := by
    rw [Bool.eq_iff_iff]
    simp only [List.any_eq_true, decide_eq_true_eq]
    exact exists_congr fun parent => and_congr_right fun hp =>
      not_congr (hsame parent (hroot parent hp)).mem_byId
  have hstate : k'.stateAfter C (k.earlier ids x) = k.stateAfter C (k.earlier ids x) :=
    stateAfter_eq_of_same fun y hy => hsame y (mem_earlier.mp hy).1
  rw [verdict, verdict, earlier_eq_of_rooted hids hsame hx hroot, hx.parents_eq, hmissing, hstate,
    hx.byId, hx.payloads, hx.authors]

/-- The decision does not need the parents to be accepted, only to be known alike. -/
theorem verdict_eq_of_known (hx : SameAt k k' x)
    (hknown : ∀ parent ∈ k.parents x, parent ∈ k'.byId ↔ parent ∈ k.byId) :
    k'.verdict C ids x = k.verdict C ids x := by
  by_cases hroot : ∀ parent ∈ k.parents x, parent ∈ ids
  · exact verdict_eq_of_rooted hids hsame hx hroot
  · have hmissing : (k.parents x).any (fun parent => parent ∉ k'.byId) =
        (k.parents x).any fun parent => parent ∉ k.byId := by
      rw [Bool.eq_iff_iff]
      simp only [List.any_eq_true, decide_eq_true_eq]
      exact exists_congr fun parent => and_congr_right fun hp => not_congr (hknown parent hp)
    have hrefused : ((k.parents x).any fun parent => parent ∉ ids) = true := by
      simpa using hroot
    rw [verdict, verdict, hx.parents_eq, hmissing, hrefused]
    simp

theorem sorted_of_same (hsorted : ids.Pairwise k.Before) : ids.Pairwise k'.Before :=
  hsorted.imp_of_mem fun hy hx hyx =>
    (before_iff_of_rooted hids hsame hy (hsame _ hx) (hids _ hx)).mpr hyx

theorem mem_order_of_same (hx : x ∈ ids) (horder : x ∈ k.order) : x ∈ k'.order :=
  (mem_order_iff_of_rooted hids hsame (hsame x hx) (hids x hx)).mpr horder

end Rooted

section Agree

variable (hids : Judged C k ids) (hsame : ∀ y ∈ ids, SameAt k k' y)
  (hothers : Judged C k' others)
include hids hsame

theorem Judged.sorted_of_same : ids.Pairwise k'.Before :=
  ChatCommons.sorted_of_same hids.rooted hsame hids.sorted

theorem Judged.mem_order_of_same (hx : x ∈ ids) : x ∈ k'.order :=
  ChatCommons.mem_order_of_same hids.rooted hsame hx (hids.subset_order hx)

include hothers

theorem earlier_eq_of_agree (hsplit : k'.order = done ++ x :: rest)
    (hdone : ∀ y ∈ done, y ∈ ids ↔ y ∈ others) : k'.earlier others x = k'.earlier ids x := by
  apply eq_of_sorted (earlier_sorted hothers.sorted) (earlier_sorted (hids.sorted_of_same hsame))
  intro y
  rw [mem_earlier, mem_earlier]
  refine and_congr_left fun hyx => ⟨fun hy => ?_, fun hy => ?_⟩
  · exact (hdone y (done_of_before hsplit (hothers.subset_order hy) hyx)).mpr hy
  · exact (hdone y (done_of_before hsplit (hids.mem_order_of_same hsame hy) hyx)).mp hy

theorem verdict_eq_of_agree (hsplit : k'.order = done ++ x :: rest)
    (hdone : ∀ y ∈ done, y ∈ ids ↔ y ∈ others) (hx : SameAt k k' x)
    (hroot : ∀ parent ∈ k.parents x, parent ∈ ids) :
    k'.verdict C others x = k.verdict C ids x := by
  rw [← verdict_eq_of_rooted hids.rooted hsame hx hroot]
  apply verdict_congr
  · intro parent hp
    have hmem := hids.mem_order_of_same hsame (hroot parent (hx.parents_eq ▸ hp))
    exact (hdone parent (parent_done hsplit hp (mem_order.mp hmem).1)).symm
  · exact earlier_eq_of_agree hids hsame hothers hsplit hdone

/-- Along the order, as far as the candidates say the same of what is accepted, the same is
accepted. -/
theorem Judged.agree (hsplit : k'.order = done ++ rest)
    (h : ∀ x ∈ done, x ∈ others → SameAt k k' x) : ∀ x ∈ done, x ∈ ids ↔ x ∈ others := by
  induction done using List.reverseRecOn generalizing rest with
  | nil =>
    intro x hx
    cases hx
  | append_singleton done y ih =>
    rw [List.append_assoc] at hsplit
    have hdone := ih hsplit fun x hx => h x (List.mem_append_left _ hx)
    intro x hx
    rcases List.mem_append.mp hx with hx | hx
    · exact hdone x hx
    · obtain rfl := List.mem_singleton.mp hx
      constructor
      · intro hmem
        rw [hothers.accepted, verdict_eq_of_agree hids hsame hothers hsplit hdone (hsame x hmem)
          (hids.closed hmem)]
        exact ⟨hids.mem_order_of_same hsame hmem, ((hids.accepted x).mp hmem).2⟩
      · intro hmem
        have hx' := h x (by simp) hmem
        have hroot : ∀ parent ∈ k.parents x, parent ∈ ids := fun parent hp => by
          rw [← hx'.parents_eq] at hp
          have hparent := hothers.closed hmem parent hp
          have hpayload := (mem_order.mp (hothers.subset_order hparent)).1
          exact (hdone parent (parent_done hsplit hp hpayload)).mpr hparent
        rw [hids.accepted, ← mem_order_iff_of_rooted hids.rooted hsame hx' hroot,
          ← verdict_eq_of_agree hids hsame hothers hsplit hdone hx' hroot]
        exact (hothers.accepted x).mp hmem

theorem Judged.earlier_isPrefix (hsplit : k'.order = done ++ x :: rest)
    (hdone : ∀ y ∈ done, y ∈ ids ↔ y ∈ others) : k'.earlier others x <+: ids := by
  classical
  rw [earlier_eq_of_agree hids hsame hothers hsplit hdone]
  refine ⟨ids.filter fun y => ¬ k'.Before y x, ?_⟩
  have hsorted := hids.sorted_of_same hsame
  apply eq_of_sorted (k := k') ?_ hsorted
  · intro y
    simp only [List.mem_append, mem_earlier, List.mem_filter, decide_eq_true_eq]
    tauto
  · refine List.pairwise_append.mpr ⟨earlier_sorted hsorted, hsorted.filter _, ?_⟩
    intro a ha b hb
    obtain ⟨hmem, hbefore⟩ := mem_earlier.mp ha
    obtain ⟨hmem', hnot⟩ := List.mem_filter.mp hb
    have hdone := done_of_before hsplit (hids.mem_order_of_same hsame hmem) hbefore
    have horder := hids.mem_order_of_same hsame hmem'
    have hpair := k'.order_pairwise
    rw [hsplit] at horder hpair
    rcases List.mem_append.mp horder with hb | hb
    · exact absurd (before_of_done hsplit hb) (of_decide_eq_true hnot)
    · exact (List.pairwise_append.mp hpair).2.2 a hdone b hb

theorem Judged.eq_of_same (h : ∀ x ∈ others, SameAt k k' x) : ids = others := by
  have hagree := hids.agree hsame hothers (List.append_nil k'.order).symm fun x _ => h x
  refine eq_of_sorted (hids.sorted_of_same hsame) hothers.sorted fun x => ⟨fun hx => ?_, fun hx => ?_⟩
  · exact (hagree x (hids.mem_order_of_same hsame hx)).mp hx
  · exact (hagree x (hothers.subset_order hx)).mpr hx

end Agree

end Same

end ChatCommons
