import ChatCommons.General.JsonText

/-!
Texts that can be told apart: two of them that begin the same bytes, each up to the end, a comma
or a closing bracket, are one. What is made of such texts as arrays and objects can be read back.
-/

namespace ChatCommons.JsonText

def IsEnd (b : UInt8) : Prop := b = 44 ∨ b = 93 ∨ b = 125

def Ends (rest : ByteString) : Prop := ∀ b ∈ rest.head?, IsEnd b

def Starts (text : ByteString) : Prop := ∃ b rest, text = b :: rest ∧ ¬ IsEnd b

def Apart (u v : ByteString) : Prop :=
  ∀ x y, Ends x → Ends y → u ++ x = v ++ y → u = v ∧ x = y

/-- A way to write values such that no two of them are written alike, whatever follows. -/
structure Legible {α : Type} (code : α → ByteString) : Prop where
  injective : Function.Injective code
  apart : ∀ a b, Apart (code a) (code b)
  starts : ∀ a, Starts (code a)

variable {α β : Type} {code : α → ByteString} {u v x y : ByteString}

theorem ends_comma : Ends (44 :: x) := by simp [Ends, IsEnd]

theorem Legible.comp (h : Legible code) {f : β → α} (hf : Function.Injective f) :
    Legible fun b => code (f b) where
  injective := h.injective.comp hf
  apart a b := h.apart (f a) (f b)
  starts a := h.starts (f a)

section Plain

theorem apart_of_plain (hu : ∀ b ∈ u, ¬ IsEnd b) (hv : ∀ b ∈ v, ¬ IsEnd b) : Apart u v := by
  intro x y hx hy h
  induction u generalizing v with
  | nil =>
    cases v with
    | nil => exact ⟨rfl, h⟩
    | cons b v =>
      apply absurd (hx b _) (hv b List.mem_cons_self)
      rw [show x = b :: (v ++ y) from h]
      rfl
  | cons a u ih =>
    cases v with
    | nil =>
      apply absurd (hy a _) (hu a List.mem_cons_self)
      rw [← show a :: (u ++ x) = y from h]
      rfl
    | cons b v =>
      obtain ⟨rfl, hrest⟩ := List.cons.inj h
      obtain ⟨rfl, rfl⟩ := ih (fun c hc => hu c (List.mem_cons_of_mem _ hc))
        (fun c hc => hv c (List.mem_cons_of_mem _ hc)) hrest
      exact ⟨rfl, rfl⟩

theorem starts_of_plain (hu : ∀ b ∈ u, ¬ IsEnd b) (hne : u ≠ []) : Starts u := by
  obtain ⟨b, rest, rfl⟩ := List.exists_cons_of_ne_nil hne
  exact ⟨b, rest, rfl, hu b List.mem_cons_self⟩

theorem legible_of_plain (hinj : Function.Injective code) (hne : ∀ a, code a ≠ [])
    (hplain : ∀ a, ∀ b ∈ code a, ¬ IsEnd b) : Legible code where
  injective := hinj
  apart a b := apart_of_plain (hplain a) (hplain b)
  starts a := starts_of_plain (hplain a) (hne a)

end Plain

section Numbers

def digit (c : Char) : UInt8 := UInt8.ofNat c.toNat

theorem digit_toNat {c : Char} (h : c.isDigit = true) :
    (digit c).toNat = c.toNat ∧ 48 ≤ c.toNat ∧ c.toNat ≤ 57 := by
  have hrange : 48 ≤ c.toNat ∧ c.toNat ≤ 57 := by
    simp only [Char.isDigit, ge_iff_le, Bool.and_eq_true, decide_eq_true_eq,
      UInt32.le_iff_toNat_le] at h
    exact h
  refine ⟨?_, hrange⟩
  rw [digit, UInt8.toNat_ofNat']
  omega

theorem digits_isDigit {n : ℕ} {c : Char} (h : c ∈ Nat.toDigits 10 n) : c.isDigit = true :=
  Nat.isDigit_of_mem_toDigits (by decide) (by decide) h

theorem decimal_bytes {n : ℕ} {b : UInt8} (h : b ∈ decimal n) : 48 ≤ b.toNat ∧ b.toNat ≤ 57 := by
  obtain ⟨c, hc, rfl⟩ := List.mem_map.mp h
  obtain ⟨hsame, hrange⟩ := digit_toNat (digits_isDigit hc)
  rw [show UInt8.ofNat c.toNat = digit c from rfl, hsame]
  exact hrange

theorem decimal_injective : Function.Injective decimal := by
  intro m n h
  have hmap : ∀ {l l' : List Char}, (∀ c ∈ l, c.isDigit = true) → (∀ c ∈ l', c.isDigit = true) →
      l.map digit = l'.map digit → l = l' := by
    intro l
    induction l with
    | nil => exact fun _ _ h => (List.map_eq_nil_iff.mp h.symm).symm
    | cons c l ih =>
      intro l' hl hl' h
      cases l' with
      | nil => cases h
      | cons d l' =>
        rw [List.map_cons, List.map_cons, List.cons.injEq] at h
        have hc := digit_toNat (hl c List.mem_cons_self)
        have hd := digit_toNat (hl' d List.mem_cons_self)
        have hnat : c.toNat = d.toNat := by rw [← hc.1, ← hd.1, h.1]
        rw [Char.toNat_inj.mp hnat, ih (fun x hx => hl x (List.mem_cons_of_mem _ hx))
          (fun x hx => hl' x (List.mem_cons_of_mem _ hx)) h.2]
  have hdigits := hmap (fun _ => digits_isDigit) (fun _ => digits_isDigit) h
  rw [← Nat.ofDigitChars_ten_toDigits (n := m), hdigits, Nat.ofDigitChars_ten_toDigits]

theorem digit_not_end {b : UInt8} (h : 48 ≤ b.toNat ∧ b.toNat ≤ 57) : ¬ IsEnd b := by
  rintro (rfl | rfl | rfl) <;> simp at h

theorem decimal_ne_nil (n : ℕ) : decimal n ≠ [] := by
  rw [decimal, ne_eq, List.map_eq_nil_iff]
  exact Nat.toDigits_ne_nil

theorem legible_decimal : Legible decimal :=
  legible_of_plain decimal_injective decimal_ne_nil fun _ _ hb => digit_not_end (decimal_bytes hb)

theorem legible_integer : Legible integer := by
  have hsign : ∀ n, (45 : UInt8) ∉ decimal n := fun n h => by
    simpa using decimal_bytes h
  apply legible_of_plain
  · intro i j h
    unfold integer at h
    split_ifs at h with hi hj hj
    · have hnat := decimal_injective (List.cons.inj h).2
      omega
    · exact absurd (h ▸ List.mem_cons_self) (hsign _)
    · exact absurd (h ▸ List.mem_cons_self) (hsign _)
    · have hnat := decimal_injective h
      omega
  · intro i
    unfold integer
    split_ifs
    · exact List.cons_ne_nil _ _
    · exact decimal_ne_nil _
  · intro i b hb
    unfold integer at hb
    split_ifs at hb
    · rcases List.mem_cons.mp hb with rfl | hb
      · simp [IsEnd]
      · exact digit_not_end (decimal_bytes hb)
    · exact digit_not_end (decimal_bytes hb)

end Numbers

section Strings

def unhex (b : UInt8) : ℕ := if b < 58 then b.toNat - 48 else b.toNat - 87

def letter (b : UInt8) : UInt8 :=
  if b = 98 then 8 else if b = 116 then 9 else if b = 110 then 10 else if b = 102 then 12
  else if b = 114 then 13 else b

/-- The first character of the text of a string, and what comes after it. -/
def unescape : ByteString → Option (UInt8 × ByteString)
  | 92 :: 117 :: 48 :: 48 :: high :: low :: rest =>
    some (UInt8.ofNat (16 * unhex high + unhex low), rest)
  | 92 :: b :: rest => some (letter b, rest)
  | b :: rest => some (b, rest)
  | [] => none

theorem unhex_hexDigit : ∀ n < 16, unhex (hexDigit n) = n := by decide

theorem unescape_other {b : UInt8} (h : b ≠ 92) : unescape (b :: x) = some (b, x) := by
  unfold unescape
  split
  · rename_i heq
    exact absurd (List.cons.inj heq).1 h
  · rename_i heq
    exact absurd (List.cons.inj heq).1 h
  · rename_i heq
    obtain ⟨rfl, rfl⟩ := List.cons.inj heq
    rfl
  · rename_i heq
    cases heq

theorem unescape_escape (b : UInt8) : unescape (escape b ++ x) = some (b, x) := by
  unfold escape
  split_ifs with h1 h2 h3 h4 h5 h6 h7 h8
  · rw [h1]
    rfl
  · rw [h2]
    rfl
  · rw [h3]
    rfl
  · rw [h4]
    rfl
  · rw [h5]
    rfl
  · rw [h6]
    rfl
  · rw [h7]
    rfl
  · have hlow : b.toNat < 32 := by simpa [UInt8.lt_iff_toNat_lt] using h8
    have hsplit : 16 * (b.toNat / 16) + b.toNat % 16 = b.toNat := by omega
    simp only [List.cons_append, List.nil_append, unescape,
      unhex_hexDigit (b.toNat / 16) (by omega), unhex_hexDigit (b.toNat % 16) (by omega), hsplit]
    rw [UInt8.ofNat_toNat]
  · exact unescape_other h2

/-- The quotation mark that ends a string is none of its characters. -/
theorem escape_head (b : UInt8) : ∀ c ∈ (escape b ++ x).head?, c ≠ 34 := by
  unfold escape
  split_ifs with h1 <;> simp
  exact h1

theorem chars_append_inj {s t : ByteString}
    (h : s.flatMap escape ++ 34 :: x = t.flatMap escape ++ 34 :: y) : s = t ∧ x = y := by
  induction s generalizing t with
  | nil =>
    cases t with
    | nil => exact ⟨rfl, (List.cons.inj h).2⟩
    | cons b t =>
      rw [List.flatMap_cons, List.append_assoc] at h
      apply absurd rfl (escape_head b 34 _)
      · exact t.flatMap escape ++ 34 :: y
      · rw [← h]
        rfl
  | cons a s ih =>
    cases t with
    | nil =>
      rw [List.flatMap_cons, List.append_assoc] at h
      apply absurd rfl (escape_head a 34 _)
      · exact s.flatMap escape ++ 34 :: x
      · rw [h]
        rfl
    | cons b t =>
      rw [List.flatMap_cons, List.flatMap_cons, List.append_assoc, List.append_assoc] at h
      have hhead := congrArg unescape h
      rw [unescape_escape, unescape_escape, Option.some.injEq, Prod.mk.injEq] at hhead
      obtain ⟨rfl, hrest⟩ := hhead
      obtain ⟨rfl, rfl⟩ := ih hrest
      exact ⟨rfl, rfl⟩

theorem string_append_inj {s t : String} (h : string s ++ x = string t ++ y) : s = t ∧ x = y := by
  rw [string, string, List.cons_append, List.cons_append, List.append_assoc, List.append_assoc] at h
  obtain ⟨hchars, hrest⟩ := chars_append_inj (List.cons.inj h).2
  exact ⟨utf8_injective hchars, hrest⟩

theorem legible_string : Legible string where
  injective s t h := (string_append_inj (x := []) (y := []) (by rw [h])).1
  apart s t x y _ _ h := by
    obtain ⟨rfl, rfl⟩ := string_append_inj h
    exact ⟨rfl, rfl⟩
  starts s := ⟨34, _, rfl, by simp [IsEnd]⟩

end Strings

section Lists

/-- What follows the first of some texts with commas between them. -/
def commaTail : List ByteString → ByteString
  | [] => []
  | u :: us => 44 :: commas (u :: us)

theorem commas_cons (u : ByteString) (us : List ByteString) :
    commas (u :: us) = u ++ commaTail us := by
  cases us with
  | nil => exact (List.append_nil u).symm
  | cons v us => rfl

/-- The texts can be told apart as far as both lists go. -/
def Aligned : List ByteString → List ByteString → Prop
  | u :: us, v :: vs => Apart u v ∧ Aligned us vs
  | _, _ => True

variable {us vs : List ByteString} {close : UInt8}

theorem ends_commaTail (hclose : IsEnd close) : Ends (commaTail us ++ close :: x) := by
  cases us with
  | nil =>
    intro b hb
    rwa [← Option.some.inj hb]
  | cons u us => exact ends_comma

theorem commas_append_inj (hclose : IsEnd close) (hcomma : close ≠ 44) (hus : ∀ u ∈ us, Starts u)
    (hvs : ∀ v ∈ vs, Starts v) (haligned : Aligned us vs)
    (h : commas us ++ close :: x = commas vs ++ close :: y) : us = vs ∧ x = y := by
  have hempty : ∀ {w : ByteString} {ws : List ByteString} {x y : ByteString}, Starts w →
      commas [] ++ close :: x ≠ commas (w :: ws) ++ close :: y := by
    rintro _ ws x y ⟨b, rest, rfl, hb⟩ heq
    rw [commas_cons] at heq
    exact hb ((List.cons.inj heq).1 ▸ hclose)
  induction us generalizing vs with
  | nil =>
    cases vs with
    | nil => exact ⟨rfl, (List.cons.inj h).2⟩
    | cons v vs => exact absurd h (hempty (hvs v List.mem_cons_self))
  | cons u us ih =>
    cases vs with
    | nil => exact absurd h.symm (hempty (hus u List.mem_cons_self))
    | cons v vs =>
      rw [commas_cons, commas_cons, List.append_assoc, List.append_assoc] at h
      obtain ⟨rfl, htail⟩ := haligned.1 _ _ (ends_commaTail hclose) (ends_commaTail hclose) h
      have hus' := fun w hw => hus w (List.mem_cons_of_mem _ hw)
      have hvs' := fun w hw => hvs w (List.mem_cons_of_mem _ hw)
      cases us with
      | nil =>
        cases vs with
        | nil => exact ⟨rfl, (List.cons.inj htail).2⟩
        | cons w vs => exact absurd (List.cons.inj htail).1 hcomma
      | cons w us =>
        cases vs with
        | nil => exact absurd (List.cons.inj htail).1.symm hcomma
        | cons w' vs =>
          obtain ⟨heq, rfl⟩ := ih hus' hvs' haligned.2 (List.cons.inj htail).2
          exact ⟨congrArg _ heq, rfl⟩

theorem Legible.array (h : Legible code) : Legible fun items : List α => array (items.map code) := by
  have hstarts : ∀ (items : List α), ∀ u ∈ items.map code, Starts u := by
    intro items u hu
    obtain ⟨a, _, rfl⟩ := List.mem_map.mp hu
    exact h.starts a
  have haligned : ∀ items others : List α, Aligned (items.map code) (others.map code) := by
    intro items
    induction items with
    | nil => exact fun _ => trivial
    | cons a items ih =>
      intro others
      cases others with
      | nil => trivial
      | cons b others => exact ⟨h.apart a b, ih others⟩
  have hinj : ∀ {items others : List α} {x y : ByteString}, JsonText.array (items.map code) ++ x =
      JsonText.array (others.map code) ++ y → items = others ∧ x = y := by
    intro items others x y heq
    rw [JsonText.array, JsonText.array, List.cons_append, List.cons_append, List.append_assoc,
      List.append_assoc] at heq
    obtain ⟨hmap, hrest⟩ := commas_append_inj (by simp [IsEnd]) (by decide) (hstarts items)
      (hstarts others) (haligned items others) (List.cons.inj heq).2
    exact ⟨List.map_injective_iff.mpr h.injective hmap, hrest⟩
  refine ⟨fun items others heq => ?_, fun items others x y _ _ heq => ?_, fun items => ?_⟩
  · exact (hinj (x := []) (y := []) (congrArg (· ++ []) heq)).1
  · obtain ⟨rfl, rfl⟩ := hinj heq
    exact ⟨rfl, rfl⟩
  · exact ⟨91, _, rfl, by simp [IsEnd]⟩

theorem legible_byteArray : Legible byteArray := by
  have hbyte : Legible fun b : UInt8 => decimal b.toNat :=
    legible_decimal.comp fun _ _ => UInt8.toNat_inj.mp
  exact hbyte.array

end Lists

section Objects

variable {fields others : List (String × ByteString)}

/-- Values under the same name can be told apart as far as both objects go. -/
def SameShape : List (String × ByteString) → List (String × ByteString) → Prop
  | f :: fields, g :: others => (f.1 = g.1 → Apart f.2 g.2) ∧ SameShape fields others
  | _, _ => True

theorem field_injective : Function.Injective field := by
  rintro ⟨s, u⟩ ⟨t, v⟩ h
  obtain ⟨hname, hrest⟩ := string_append_inj h
  exact Prod.ext hname (List.cons.inj hrest).2

theorem aligned_fields (h : SameShape fields others) :
    Aligned (fields.map field) (others.map field) := by
  induction fields generalizing others with
  | nil => trivial
  | cons f fields ih =>
    cases others with
    | nil => trivial
    | cons g others =>
      refine ⟨fun x y hx hy heq => ?_, ih h.2⟩
      rw [field, field, List.append_assoc, List.append_assoc] at heq
      obtain ⟨hname, hrest⟩ := string_append_inj heq
      obtain ⟨hvalue, htail⟩ := h.1 hname x y hx hy (List.cons.inj hrest).2
      refine ⟨?_, htail⟩
      rw [field, field, hname, hvalue]

theorem object_append_inj (h : SameShape fields others)
    (heq : object fields ++ x = object others ++ y) : fields = others ∧ x = y := by
  have hstarts : ∀ (l : List (String × ByteString)), ∀ u ∈ l.map field, Starts u := by
    intro l u hu
    obtain ⟨f, _, rfl⟩ := List.mem_map.mp hu
    exact ⟨34, _, rfl, by simp [IsEnd]⟩
  rw [object, object, List.cons_append, List.cons_append, List.append_assoc,
    List.append_assoc] at heq
  obtain ⟨hmap, hrest⟩ := commas_append_inj (by simp [IsEnd]) (by decide) (hstarts fields)
    (hstarts others) (aligned_fields h) (List.cons.inj heq).2
  exact ⟨List.map_injective_iff.mpr field_injective hmap, hrest⟩

theorem apart_object (h : SameShape fields others) : Apart (object fields) (object others) := by
  intro x y _ _ heq
  obtain ⟨rfl, rfl⟩ := object_append_inj h heq
  exact ⟨rfl, rfl⟩

theorem object_injective (h : SameShape fields others) (heq : object fields = object others) :
    fields = others :=
  (object_append_inj (x := []) (y := []) h (congrArg (· ++ []) heq)).1

theorem legible_object {fields : α → List (String × ByteString)}
    (hshape : ∀ a b, SameShape (fields a) (fields b)) (hinj : Function.Injective fields) :
    Legible fun a => object (fields a) where
  injective a b heq := hinj (object_injective (hshape a b) heq)
  apart a b := apart_object (hshape a b)
  starts _ := ⟨123, _, rfl, by simp [IsEnd]⟩

theorem apart_of_heads {b c : UInt8} (h : b ≠ c) : Apart (b :: u) (c :: v) :=
  fun _ _ _ _ heq => absurd (List.cons.inj heq).1 h

/-- A variant without data is its name, and one with data is an object with one field. -/
def variant (tag : String) : Option (List (String × ByteString)) → ByteString
  | none => string tag
  | some fields => object [(tag, object fields)]

theorem legible_variant {tag : α → String} {inner : α → Option (List (String × ByteString))}
    (hshape : ∀ a b, tag a = tag b → ∀ fields others, inner a = some fields →
      inner b = some others → SameShape fields others)
    (hinj : ∀ a b, tag a = tag b → inner a = inner b → a = b) :
    Legible fun a => variant (tag a) (inner a) := by
  have htagged : ∀ a b fields others, inner a = some fields → inner b = some others →
      SameShape [(tag a, object fields)] [(tag b, object others)] :=
    fun a b fields others ha hb =>
      ⟨fun htag => apart_object (hshape a b htag fields others ha hb), trivial⟩
  refine ⟨fun a b heq => ?_, fun a b => ?_, fun a => ?_⟩
  · cases ha : inner a with
    | none =>
      cases hb : inner b with
      | none =>
        rw [ha, hb] at heq
        exact hinj a b (legible_string.injective heq) (ha.trans hb.symm)
      | some others =>
        rw [ha, hb] at heq
        exact absurd (List.cons.inj heq).1 (by decide)
    | some fields =>
      cases hb : inner b with
      | none =>
        rw [ha, hb] at heq
        exact absurd (List.cons.inj heq).1 (by decide)
      | some others =>
        rw [ha, hb] at heq
        have hone := object_injective (htagged a b fields others ha hb) heq
        simp only [List.cons.injEq, Prod.mk.injEq, and_true] at hone
        obtain ⟨htag, hbody⟩ := hone
        have hsame := object_injective (hshape a b htag fields others ha hb) hbody
        exact hinj a b htag (ha.trans ((congrArg some hsame).trans hb.symm))
  · cases ha : inner a with
    | none =>
      cases hb : inner b with
      | none => exact legible_string.apart _ _
      | some others => exact apart_of_heads (by decide)
    | some fields =>
      cases hb : inner b with
      | none => exact apart_of_heads (by decide)
      | some others => exact apart_object (htagged a b fields others ha hb)
  · cases inner a with
    | none => exact legible_string.starts _
    | some fields => exact ⟨123, _, rfl, by simp [IsEnd]⟩

end Objects

/-- There is a reader that takes back every text so written. -/
theorem Legible.exists_reader (h : Legible code) :
    ∃ read : ByteString → Option α, ∀ a, read (code a) = some a := by
  classical
  refine ⟨fun text => if hex : ∃ a, code a = text then some hex.choose else none, fun a => ?_⟩
  have hex : ∃ b, code b = code a := ⟨a, rfl⟩
  exact (dif_pos hex).trans (congrArg some (h.injective hex.choose_spec))

end ChatCommons.JsonText
