import ChatCommons.General.Bytes

/-!
Compact JSON text, as bytes: numbers in decimal, strings with the short escapes,
arrays and objects without blanks. Each form comes with its length.
-/

namespace ChatCommons.JsonText

def decimal (n : ℕ) : ByteString := (Nat.toDigits 10 n).map fun c => UInt8.ofNat c.toNat

def integer (i : ℤ) : ByteString :=
  if i < 0 then 45 :: decimal i.natAbs else decimal i.natAbs

def hexDigit (n : ℕ) : UInt8 := UInt8.ofNat (if n < 10 then 48 + n else 87 + n)

def escape (b : UInt8) : ByteString :=
  if b = 34 then [92, 34]
  else if b = 92 then [92, 92]
  else if b = 8 then [92, 98]
  else if b = 9 then [92, 116]
  else if b = 10 then [92, 110]
  else if b = 12 then [92, 102]
  else if b = 13 then [92, 114]
  else if b < 32 then [92, 117, 48, 48, hexDigit (b.toNat / 16), hexDigit (b.toNat % 16)]
  else [b]

def string (s : String) : ByteString := 34 :: (utf8 s).flatMap escape ++ [34]

def null : ByteString := utf8 "null"

def commas : List ByteString → ByteString
  | [] => []
  | [x] => x
  | x :: y :: rest => x ++ 44 :: commas (y :: rest)

def array (items : List ByteString) : ByteString := 91 :: commas items ++ [93]

def field (entry : String × ByteString) : ByteString := string entry.1 ++ 58 :: entry.2

def object (fields : List (String × ByteString)) : ByteString :=
  123 :: commas (fields.map field) ++ [125]

def byteArray (bytes : ByteString) : ByteString := array (bytes.map fun b => decimal b.toNat)

theorem decimal_length_le {n k : ℕ} (hk : 0 < k) (h : n < 10 ^ k) : (decimal n).length ≤ k := by
  rw [decimal, List.length_map]
  exact (Nat.length_toDigits_le_iff (by norm_num) hk).mpr h

theorem escape_length_le (b : UInt8) : (escape b).length ≤ 6 := by
  unfold escape
  split_ifs <;> simp

theorem string_length_le (s : String) : (string s).length ≤ 6 * s.utf8ByteSize + 2 := by
  have h : ∀ l : ByteString, (l.flatMap escape).length ≤ 6 * l.length := by
    intro l
    induction l with
    | nil => simp
    | cons b l ih =>
      have := escape_length_le b
      simp only [List.flatMap_cons, List.length_append, List.length_cons]
      omega
  have := h (utf8 s)
  rw [utf8_length] at this
  simp only [string, List.length_cons, List.length_append, List.length_nil]
  omega

theorem commas_length_le {items : List ByteString} {k : ℕ} (h : ∀ x ∈ items, x.length ≤ k) :
    (commas items).length ≤ (k + 1) * items.length := by
  induction items with
  | nil => simp [commas]
  | cons x rest ih =>
    have hx := h x (by simp)
    have hrest := ih (fun y hy => h y (List.mem_cons_of_mem _ hy))
    cases rest with
    | nil => simp only [commas, List.length_cons, List.length_nil]; omega
    | cons y rest =>
      simp only [commas, List.length_append, List.length_cons] at hrest ⊢
      nlinarith

theorem length_le_commas {items : List ByteString} {x : ByteString} (h : x ∈ items) :
    x.length ≤ (commas items).length := by
  induction items with
  | nil => cases h
  | cons y rest ih =>
    cases rest with
    | nil => rw [List.mem_singleton.mp h, commas]
    | cons z rest =>
      simp only [commas, List.length_append, List.length_cons]
      rcases List.mem_cons.mp h with rfl | h
      · omega
      · have := ih h
        omega

theorem array_length_le {items : List ByteString} {k : ℕ} (h : ∀ x ∈ items, x.length ≤ k) :
    (array items).length ≤ (k + 1) * items.length + 2 := by
  have := commas_length_le h
  simp only [array, List.length_cons, List.length_append, List.length_nil]
  omega

theorem byteArray_length_le (bytes : ByteString) :
    (byteArray bytes).length ≤ 4 * bytes.length + 2 := by
  have h : ∀ x ∈ bytes.map (fun b => decimal b.toNat), x.length ≤ 3 := by
    intro x hx
    obtain ⟨b, _, rfl⟩ := List.mem_map.mp hx
    exact decimal_length_le (by norm_num) (b.toNat_lt.trans (by norm_num))
  simpa [byteArray] using array_length_le h

section ExactLengths

theorem commas_length (items : List ByteString) :
    (commas items).length = (items.map List.length).sum + (items.length - 1) := by
  induction items with
  | nil => rfl
  | cons x rest ih =>
    cases rest with
    | nil => simp [commas]
    | cons y rest =>
      simp only [commas, List.length_append, List.length_cons, ih, List.map_cons, List.sum_cons]
      omega

theorem array_length (items : List ByteString) :
    (array items).length = (items.map List.length).sum + (items.length - 1) + 2 := by
  simp only [array, List.length_cons, List.length_append, List.length_nil, commas_length]

def byteWidth (b : UInt8) : ℕ := if b.toNat < 10 then 1 else if b.toNat < 100 then 2 else 3

theorem decimal_length_eq {n k : ℕ} (h : n < 10 ^ (k + 1)) (hlow : 0 < k → 10 ^ k ≤ n) :
    (decimal n).length = k + 1 := by
  have hle := decimal_length_le (by omega) h
  have hpos : 0 < (decimal n).length := by
    rw [decimal, List.length_map]
    exact Nat.length_toDigits_pos
  by_cases hk : 0 < k
  · have hnot : ¬ (decimal n).length ≤ k := by
      rw [decimal, List.length_map, Nat.length_toDigits_le_iff (by norm_num) hk, not_lt]
      exact hlow hk
    omega
  · omega

theorem decimal_byte_length (b : UInt8) : (decimal b.toNat).length = byteWidth b := by
  have hb := b.toNat_lt
  unfold byteWidth
  split_ifs with h1 h2
  · apply decimal_length_eq
    · omega
    · omega
  · apply decimal_length_eq
    · omega
    · omega
  · apply decimal_length_eq
    · omega
    · omega

def byteArrayWidth (bytes : ByteString) : ℕ :=
  (bytes.map byteWidth).sum + (bytes.length - 1) + 2

theorem byteArrayWidth_replicate (n : ℕ) (b : UInt8) :
    byteArrayWidth (List.replicate n b) = n * byteWidth b + (n - 1) + 2 := by
  rw [byteArrayWidth, List.map_replicate, List.sum_replicate, List.length_replicate, smul_eq_mul]

theorem byteArray_length (bytes : ByteString) :
    (byteArray bytes).length = byteArrayWidth bytes := by
  have hwidths : (bytes.map fun b => decimal b.toNat).map List.length = bytes.map byteWidth := by
    rw [List.map_map]
    apply List.map_congr_left
    intro b _
    exact decimal_byte_length b
  rw [byteArray, array_length, hwidths, List.length_map, byteArrayWidth]

def escapeWidth (b : UInt8) : ℕ :=
  if b = 34 ∨ b = 92 ∨ b = 8 ∨ b = 9 ∨ b = 10 ∨ b = 12 ∨ b = 13 then 2
  else if b < 32 then 6
  else 1

theorem escape_length (b : UInt8) : (escape b).length = escapeWidth b := by
  unfold escape escapeWidth
  split_ifs <;> first | rfl | tauto

def stringWidth (s : String) : ℕ := ((utf8 s).map escapeWidth).sum + 2

theorem string_length (s : String) : (string s).length = stringWidth s := by
  have hwidths : (utf8 s).map (fun b => (escape b).length) = (utf8 s).map escapeWidth :=
    List.map_congr_left fun b _ => escape_length b
  simp only [string, stringWidth, List.length_cons, List.length_append, List.length_nil,
    List.length_flatMap, hwidths]

def integerWidth (i : ℤ) : ℕ :=
  (Nat.toDigits 10 i.natAbs).length + if i < 0 then 1 else 0

theorem integer_length (i : ℤ) : (integer i).length = integerWidth i := by
  unfold integer integerWidth
  split_ifs
  · rw [List.length_cons, decimal, List.length_map]
  · rw [decimal, List.length_map, Nat.add_zero]

end ExactLengths

end ChatCommons.JsonText
