import Mathlib

/-!
Byte strings: arrays of a fixed length with their lexicographic order, and the
big-endian encoding of numbers.
-/

namespace ChatCommons

abbrev ByteString := List UInt8

structure Bytes (n : ℕ) where
  toList : ByteString
  length_eq : toList.length = n

namespace Bytes

variable {n : ℕ}

theorem toList_injective : Function.Injective (Bytes.toList (n := n)) := by
  rintro ⟨a, ha⟩ ⟨b, hb⟩ h
  simp_all

def key (b : Bytes n) : List ℕ := b.toList.map UInt8.toNat

theorem key_injective : Function.Injective (key (n := n)) := fun _ _ h =>
  toList_injective (List.map_injective_iff.mpr (fun _ _ => UInt8.toNat_inj.mp) h)

instance : LinearOrder (Bytes n) := LinearOrder.lift' key key_injective

def ofList? (n : ℕ) (l : ByteString) : Option (Bytes n) :=
  if h : l.length = n then some ⟨l, h⟩ else none

@[simp] theorem ofList?_toList (b : Bytes n) : ofList? n b.toList = some b := by
  simp [ofList?, b.length_eq]

theorem ofList?_eq_some {l : ByteString} {b : Bytes n} :
    ofList? n l = some b ↔ l = b.toList := by
  constructor
  · intro h
    unfold ofList? at h
    split_ifs at h with hl
    rw [← Option.some.inj h]
  · rintro rfl
    exact ofList?_toList b

theorem ofList?_isSome {l : ByteString} : (ofList? n l).isSome ↔ l.length = n := by
  unfold ofList?
  split_ifs with h <;> simp [h]

end Bytes

def utf8 (s : String) : ByteString := s.toUTF8.data.toList

@[simp] theorem utf8_length (s : String) : (utf8 s).length = s.utf8ByteSize := rfl

theorem utf8_injective : Function.Injective utf8 := by
  intro s t h
  apply String.toByteArray_inj.mp
  apply ByteArray.ext
  exact Array.toList_inj.mp h

theorem utf8_push (s : String) (c : Char) : utf8 (s.push c) = utf8 s ++ utf8 (String.singleton c) := by
  rw [String.push_eq_append]
  simp [utf8]

def bigEndian : ℕ → ℕ → ByteString
  | 0, _ => []
  | width + 1, n => bigEndian width (n / 256) ++ [UInt8.ofNat n]

@[simp] theorem bigEndian_length (width n : ℕ) : (bigEndian width n).length = width := by
  induction width generalizing n with
  | zero => rfl
  | succ width ih => simp [bigEndian, ih]

theorem bigEndian_injective {width m n : ℕ} (hm : m < 256 ^ width) (hn : n < 256 ^ width)
    (h : bigEndian width m = bigEndian width n) : m = n := by
  induction width generalizing m n with
  | zero => simp at hm hn; omega
  | succ width ih =>
    simp only [bigEndian] at h
    obtain ⟨hhigh, hlow⟩ := List.append_inj' h rfl
    have hlow' : m % 256 = n % 256 := by
      have := congrArg UInt8.toNat (List.singleton_inj.mp hlow)
      simpa using this
    have hdiv : m / 256 = n / 256 := by
      apply ih _ _ hhigh
      · rw [Nat.div_lt_iff_lt_mul (by norm_num)]; simpa [pow_succ] using hm
      · rw [Nat.div_lt_iff_lt_mul (by norm_num)]; simpa [pow_succ] using hn
    omega

def bigEndianBytes (width n : ℕ) : Bytes width := ⟨bigEndian width n, bigEndian_length width n⟩

theorem bigEndianBytes_injective {width m n : ℕ} (hm : m < 256 ^ width) (hn : n < 256 ^ width)
    (h : bigEndianBytes width m = bigEndianBytes width n) : m = n :=
  bigEndian_injective hm hn (congrArg Bytes.toList h)

end ChatCommons
