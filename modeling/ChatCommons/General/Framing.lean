import ChatCommons.General.Bytes

/-!
Encodings that tell where they end: whatever follows, the encoded value and what
follows it can be told apart. A record of such fields is read back field by field.
-/

namespace ChatCommons.Framing

variable {α β : Type} {valid : α → Prop} {encode : α → ByteString} {n : ℕ}

/-- From the bytes that begin with an encoded value, the value and the rest are determined. -/
def Delimits (valid : α → Prop) (encode : α → ByteString) : Prop :=
  ∀ x y rest rest', valid x → valid y → encode x ++ rest = encode y ++ rest' →
    x = y ∧ rest = rest'

theorem Delimits.injective (h : Delimits valid encode) {x y : α} (hx : valid x) (hy : valid y)
    (heq : encode x = encode y) : x = y :=
  (h x y [] [] hx hy (by rw [heq])).1

theorem delimits_of_length (hlength : ∀ x, valid x → (encode x).length = n)
    (hinjective : ∀ x y, valid x → valid y → encode x = encode y → x = y) :
    Delimits valid encode := by
  intro x y rest rest' hx hy heq
  obtain ⟨hencoded, hrest⟩ := List.append_inj heq ((hlength x hx).trans (hlength y hy).symm)
  exact ⟨hinjective x y hx hy hencoded, hrest⟩

theorem delimits_bytes : Delimits (fun _ : Bytes n => True) Bytes.toList :=
  delimits_of_length (fun x _ => x.length_eq) fun _ _ _ _ h => Bytes.toList_injective h

theorem delimits_fixed : Delimits (fun bytes : ByteString => bytes.length = n) id :=
  delimits_of_length (fun _ h => h) fun _ _ _ _ h => h

theorem delimits_bigEndian (width : ℕ) : Delimits (· < 256 ^ width) (bigEndian width) :=
  delimits_of_length (fun x _ => bigEndian_length width x) fun _ _ hx hy h =>
    bigEndian_injective hx hy h

theorem Delimits.comap (h : Delimits valid encode) {f : β → α} (hf : Function.Injective f) :
    Delimits (fun b => valid (f b)) fun b => encode (f b) := by
  intro x y rest rest' hx hy heq
  obtain ⟨hxy, hrest⟩ := h (f x) (f y) rest rest' hx hy heq
  exact ⟨hf hxy, hrest⟩

/-- One byte says whether the value is there. -/
def flagged (encode : α → ByteString) : Option α → ByteString
  | some x => 1 :: encode x
  | none => [0]

theorem Delimits.flagged (h : Delimits valid encode) :
    Delimits (fun o : Option α => ∀ x ∈ o, valid x) (Framing.flagged encode) := by
  intro o o' rest rest' ho ho' heq
  cases o with
  | none =>
    cases o' with
    | none => exact ⟨rfl, (List.cons.inj heq).2⟩
    | some y => exact absurd (List.cons.inj heq).1 (by decide)
  | some x =>
    cases o' with
    | none => exact absurd (List.cons.inj heq).1 (by decide)
    | some y =>
      obtain ⟨rfl, hrest⟩ := h x y rest rest' (ho x rfl) (ho' y rfl) (List.cons.inj heq).2
      exact ⟨rfl, hrest⟩

theorem Delimits.flatMap (h : Delimits valid encode) {xs ys : List α} {rest rest' : ByteString}
    (hlength : xs.length = ys.length) (hxs : ∀ x ∈ xs, valid x) (hys : ∀ y ∈ ys, valid y)
    (heq : xs.flatMap encode ++ rest = ys.flatMap encode ++ rest') : xs = ys ∧ rest = rest' := by
  induction xs generalizing ys with
  | nil =>
    obtain rfl := List.length_eq_zero_iff.mp hlength.symm
    exact ⟨rfl, heq⟩
  | cons x xs ih =>
    cases ys with
    | nil => cases hlength
    | cons y ys =>
      rw [List.flatMap_cons, List.flatMap_cons, List.append_assoc, List.append_assoc] at heq
      obtain ⟨rfl, htail⟩ := h x y _ _ (hxs x (by simp)) (hys y (by simp)) heq
      obtain ⟨rfl, hrest⟩ := ih (Nat.succ.inj hlength)
        (fun z hz => hxs z (List.mem_cons_of_mem _ hz))
        (fun z hz => hys z (List.mem_cons_of_mem _ hz)) htail
      exact ⟨rfl, hrest⟩

theorem Delimits.counted (h : Delimits valid encode) (width : ℕ) :
    Delimits (fun xs : List α => xs.length < 256 ^ width ∧ ∀ x ∈ xs, valid x) fun xs =>
      bigEndian width xs.length ++ xs.flatMap encode := by
  intro xs ys rest rest' hxs hys heq
  rw [List.append_assoc, List.append_assoc] at heq
  obtain ⟨hlength, hitems⟩ := delimits_bigEndian width _ _ _ _ hxs.1 hys.1 heq
  exact h.flatMap hlength hxs.2 hys.2 hitems

theorem delimits_prefixed (width : ℕ) :
    Delimits (fun bytes : ByteString => bytes.length < 256 ^ width) fun bytes =>
      bigEndian width bytes.length ++ bytes := by
  intro x y rest rest' hx hy heq
  rw [List.append_assoc, List.append_assoc] at heq
  obtain ⟨hlength, hbytes⟩ := delimits_bigEndian width _ _ _ _ hx hy heq
  exact List.append_inj hbytes hlength

theorem tags_differ {tag tag' rest rest' : ByteString} (h : ¬ tag <+: tag') (h' : ¬ tag' <+: tag) :
    tag ++ rest ≠ tag' ++ rest' := by
  intro heq
  have hprefix : tag <+: tag' ++ rest' := ⟨rest, heq⟩
  obtain hleft | hright := List.prefix_or_prefix_of_prefix hprefix (List.prefix_append tag' rest')
  · exact h hleft
  · exact h' hright

end ChatCommons.Framing
