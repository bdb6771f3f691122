import ChatCommons.Model.Diagnostics
import ChatCommons.Network.InvitationCode

/-!
What becomes of an invitation code in a diagnostic text.
-/

namespace ChatCommons

open Scanning

def isUrlSafe (character : Char) : Bool := isRunCharacter character || character = '-'

/-- A code with this payload stands between the two texts, neither of which continues it. -/
structure Delimited (before payload after : Text) : Prop where
  payload : ∀ c ∈ payload, isUrlSafe c = true
  before : ∀ c ∈ before.getLast?, isUrlSafe c = false
  after : ∀ c ∈ after.head?, isUrlSafe c = false

/-- What the tokens after the marker, the first of which it belongs to, become. -/
def redactedRest (scanned : Text) : Text :=
  scanned.takeWhile (!isWhitespace ·) ++
    (words isWhitespace (scanned.dropWhile (!isWhitespace ·))).flatMap (" ".toList ++ redactToken ·)

/-- What the tokens that end before the marker become. -/
def redactedFront (scanned : Text) : Text :=
  (words isWhitespace (finished isWhitespace scanned)).flatMap (redactToken · ++ " ".toList)

def redactedBefore (home before : Text) : Text :=
  let scanned := redactRuns (replaceHome home before)
  redactedFront scanned ++ unfinished isWhitespace scanned

def redactedAfter (home after : Text) : Text := redactedRest (redactRuns (replaceHome home after))

/-- The output holds the marker in place of the whole code. -/
def InviteRedacted (home before payload after : Text) : Prop :=
  redactDiagnostic home (before ++ ("cc1_".toList ++ payload ++ after)) =
    redactedBefore home before ++ ("[redacted invite]".toList ++ redactedAfter home after)

/-- No replaced occurrence of the home directory reaches into the code. -/
def HomeApart (home before payload after : Text) : Prop :=
  replaceHome home (before ++ ("cc1_".toList ++ payload ++ after)) =
    replaceHome home before ++ ("cc1_".toList ++ payload ++ replaceHome home after)

section Replacing

variable {home before payload after : Text}

theorem homeApart_of_not_overlaps
    (h : home ≠ [] → ¬ Overlaps home before ("cc1_".toList ++ payload) after) :
    HomeApart home before payload after := by
  rw [HomeApart, replaceHome, replaceHome, replaceHome]
  by_cases hhome : home.isEmpty
  · rw [if_pos hhome, if_pos hhome, if_pos hhome]
  · have hne : home ≠ [] := fun h => hhome (List.isEmpty_iff.mpr h)
    rw [if_neg hhome, if_neg hhome, if_neg hhome]
    exact replaceAll_apart hne (h hne)

theorem replaceHome_head {c : Char} (hc : c ∈ (replaceHome home after).head?) :
    c ∈ after.head? ∨ c = '$' := by
  rw [replaceHome] at hc
  by_cases hhome : home.isEmpty
  · rw [if_pos hhome] at hc
    exact .inl hc
  · rw [if_neg hhome] at hc
    apply (head?_replaceAll (by decide) hc).imp_right
    intro h
    cases h
    rfl

theorem replaceHome_end {c : Char} (hc : c ∈ (replaceHome home before).getLast?) :
    c ∈ before.getLast? ∨ "$HOME".toList <:+ replaceHome home before := by
  rw [replaceHome] at hc ⊢
  by_cases hhome : home.isEmpty
  · rw [if_pos hhome] at hc
    exact .inl hc
  · rw [if_neg hhome] at hc ⊢
    exact replaceLoop_end (by decide) hc

end Replacing

section Runs

theorem redactRun_nil : redactRun [] = [] := by decide

theorem redactRun_invite (payload : Text) :
    redactRun ("cc1_".toList ++ payload) = "[redacted invite]".toList := by
  rw [redactRun, if_pos (List.isPrefixOf_iff_prefix.mpr (List.prefix_append _ _))]

theorem redactRun_home (payload : Text) :
    redactRun ("HOMEcc1_".toList ++ payload) = "HOMEcc1_".toList ++ payload := by
  have hinvite : ("cc1_".toList.isPrefixOf ("HOMEcc1_".toList ++ payload)) = false := rfl
  have hplain : ("HOMEcc1_".toList ++ payload).all Char.isAlphanum = false := by
    rw [List.all_append]
    exact Bool.and_eq_false_imp.mpr fun h => absurd h (by decide)
  rw [redactRun, hinvite, hplain, Bool.and_false, if_neg Bool.false_ne_true,
    if_neg Bool.false_ne_true]

variable {inner rest : Text} {c : Char}

theorem isRunCharacter_of_isUrlSafe (h : isUrlSafe c = false) : isRunCharacter c = false :=
  (Bool.or_eq_false_iff.mp h).1

theorem redactRuns_cons (hc : isRunCharacter c = false) (rest : Text) :
    redactRuns (c :: rest) = c :: redactRuns rest :=
  mapRuns_cons redactRun_nil hc rest

end Runs

section Tokens

theorem plain_redacted : ∀ c ∈ "[redacted".toList, isWhitespace c = false := by simp [isWhitespace]

theorem plain_invite : ∀ c ∈ "invite]".toList, isWhitespace c = false := by simp [isWhitespace]

theorem redactTokens_around {word rest : Text} (hne : word ≠ [])
    (hword : ∀ c ∈ word, isWhitespace c = false) (hrest : ∀ c ∈ rest.head?, isWhitespace c = true)
    (front : Text) :
    redactTokens (front ++ (word ++ rest)) =
      redactedFront front ++ (redactToken (unfinished isWhitespace front ++ word) ++
        (words isWhitespace rest).flatMap (" ".toList ++ redactToken ·)) := by
  rw [redactTokens, words_around hne hword hrest, List.map_append, List.map_cons,
    intercalate_around, List.flatMap_map, List.flatMap_map, redactedFront]

theorem redactToken_invite (token : Text) :
    redactToken ("invite]".toList ++ token) = "invite]".toList ++ token := by
  have hplain : isPath ("invite]".toList ++ token) = false := rfl
  rw [redactToken, hplain, if_neg Bool.false_ne_true]

theorem whitespace_of_dropWhile (text : Text) :
    ∀ c ∈ (text.dropWhile (!isWhitespace ·)).head?, isWhitespace c = true := by
  intro c hc
  have h := List.head?_dropWhile_not (!isWhitespace ·) text
  rw [Option.mem_def.mp hc] at h
  simpa using h

theorem redactTokens_marker (front rest : Text) :
    redactTokens (front ++ ("[redacted invite]".toList ++ rest)) =
      redactedFront front ++ (redactToken (unfinished isWhitespace front ++ "[redacted".toList) ++
        (" invite]".toList ++ redactedRest rest)) := by
  have hmarker : "[redacted invite]".toList ++ rest =
      "[redacted".toList ++ (" invite]".toList ++ rest) := rfl
  have htoken : ∀ c ∈ "invite]".toList ++ rest.takeWhile (!isWhitespace ·),
      isWhitespace c = false := by
    intro c hc
    rcases List.mem_append.mp hc with hc | hc
    · exact plain_invite c hc
    · simpa using List.mem_takeWhile_imp hc
  have hsplit : "invite]".toList ++ rest = [] ++ (("invite]".toList ++
      rest.takeWhile (!isWhitespace ·)) ++ rest.dropWhile (!isWhitespace ·)) := by
    rw [List.nil_append, List.append_assoc, List.takeWhile_append_dropWhile]
  have hrest : words isWhitespace (" invite]".toList ++ rest) =
      ("invite]".toList ++ rest.takeWhile (!isWhitespace ·)) ::
        words isWhitespace (rest.dropWhile (!isWhitespace ·)) := by
    have hgap : words isWhitespace (" invite]".toList ++ rest) =
        words isWhitespace ("invite]".toList ++ rest) := words_break [] _ (by decide)
    rw [hgap, hsplit, words_around (by simp) htoken (whitespace_of_dropWhile rest)]
    rfl
  rw [hmarker, redactTokens_around (by decide) plain_redacted (by simp; decide), hrest,
    List.flatMap_cons, redactToken_invite, redactedRest]
  simp

/-- A marker for a path stands where the marker for an invitation does only if no token begins
before it. -/
theorem eq_nil_of_path {token x y : Text} (htoken : ∀ c ∈ token, isWhitespace c = false)
    (h : "[redacted path]".toList ++ x =
      token ++ ("[redacted".toList ++ (" invite]".toList ++ y))) : token = [] := by
  have hword : "[redacted".toList = token ++ "[redacted".toList := by
    have hjoined : ∀ c ∈ token ++ "[redacted".toList, isWhitespace c = false := by
      intro c hc
      rcases List.mem_append.mp hc with hc | hc
      · exact htoken c hc
      · exact plain_redacted c hc
    have hspace : isWhitespace ' ' = true := by decide
    rw [← List.append_assoc] at h
    exact word_unique hspace hspace plain_redacted hjoined h
  have hlength := congrArg List.length hword
  rw [List.length_append] at hlength
  apply List.eq_nil_of_length_eq_zero
  omega

theorem redactToken_eq_iff (token : Text) (htoken : ∀ c ∈ token, isWhitespace c = false)
    (x y : Text) :
    redactToken (token ++ "[redacted".toList) ++ (" invite]".toList ++ x) =
        token ++ ("[redacted".toList ++ (" invite]".toList ++ y)) ↔
      isPath (token ++ "[redacted".toList) = false ∧ x = y := by
  rw [redactToken]
  by_cases hpath : isPath (token ++ "[redacted".toList) = true
  · rw [if_pos hpath]
    constructor
    · intro h
      have hnil := eq_nil_of_path htoken h
      rw [hnil] at hpath
      exact absurd hpath (by decide)
    · intro h
      rw [hpath] at h
      cases h.1
  · rw [if_neg hpath, List.append_assoc, List.append_cancel_left_eq, List.append_cancel_left_eq,
      List.append_cancel_left_eq]
    exact (and_iff_right (Bool.eq_false_iff.mpr hpath)).symm

theorem redactTokens_ne_marker {front : Text} (hne : unfinished isWhitespace front ≠ [])
    (rest after : Text) :
    redactTokens (front ++ 'c' :: rest) ≠
      redactedFront front ++ unfinished isWhitespace front ++
        ("[redacted invite]".toList ++ after) := by
  intro h
  have hsplit : front ++ 'c' :: rest = front ++ ('c' :: rest.takeWhile (!isWhitespace ·) ++
      rest.dropWhile (!isWhitespace ·)) := by
    rw [List.cons_append, List.takeWhile_append_dropWhile]
  have hword : ∀ c ∈ 'c' :: rest.takeWhile (!isWhitespace ·), isWhitespace c = false := by
    intro c hc
    rcases List.mem_cons.mp hc with rfl | hc
    · decide
    · simpa using List.mem_takeWhile_imp hc
  have hmarker : "[redacted invite]".toList ++ after =
      "[redacted".toList ++ (" invite]".toList ++ after) := rfl
  rw [hsplit, redactTokens_around (List.cons_ne_nil _ _) hword (whitespace_of_dropWhile rest),
    List.append_assoc, List.append_cancel_left_eq, hmarker, redactToken] at h
  by_cases hpath : isPath (unfinished isWhitespace front ++
      'c' :: rest.takeWhile (!isWhitespace ·)) = true
  · rw [if_pos hpath] at h
    exact hne (eq_nil_of_path (fun _ => sep_of_mem_unfinished) h)
  · rw [if_neg hpath, List.append_assoc, List.append_cancel_left_eq] at h
    cases h

end Tokens

section Codes

variable {home before payload after : Text}

namespace Delimited

variable (h : Delimited before payload after)
include h

theorem after_head : ∀ c ∈ (replaceHome home after).head?, isUrlSafe c = false := by
  intro c hc
  rcases replaceHome_head hc with hc | rfl
  · exact h.after c hc
  · decide

theorem dropWhile_eq_nil : payload.dropWhile isRunCharacter = [] ↔ '-' ∉ payload := by
  rw [List.dropWhile_eq_nil_iff]
  constructor
  · intro hrun hmem
    exact absurd (hrun '-' hmem) (by decide)
  · intro hplain c hc
    have hsafe := h.payload c hc
    rw [isUrlSafe, Bool.or_eq_true, decide_eq_true_eq] at hsafe
    apply hsafe.resolve_right
    rintro rfl
    exact hplain hc

theorem dropWhile_cons {c : Char} {rest : Text}
    (hrest : payload.dropWhile isRunCharacter = c :: rest) : c = '-' := by
  have hmem : c ∈ payload := by
    apply (List.dropWhile_suffix isRunCharacter).mem
    rw [hrest]
    exact List.mem_cons_self
  have hbreak := List.head?_dropWhile_not isRunCharacter payload
  rw [hrest] at hbreak
  have hc : isRunCharacter c = false := by simpa using hbreak
  have hsafe := h.payload c hmem
  rw [isUrlSafe, hc, Bool.false_or] at hsafe
  exact of_decide_eq_true hsafe

theorem break_after : ∀ c ∈ (payload.dropWhile isRunCharacter ++ replaceHome home after).head?,
    isRunCharacter c = false := by
  intro c hc
  cases hrest : payload.dropWhile isRunCharacter with
  | nil =>
    rw [hrest, List.nil_append] at hc
    exact isRunCharacter_of_isUrlSafe (h.after_head c hc)
  | cons d rest =>
    rw [hrest] at hc
    cases hc
    rw [h.dropWhile_cons hrest]
    decide

theorem scan_run (home letters : Text) (hletters : ∀ c ∈ letters, isRunCharacter c = true) :
    redactRuns (letters ++ (payload ++ replaceHome home after)) =
      redactRun (letters ++ payload.takeWhile isRunCharacter) ++
        redactRuns (payload.dropWhile isRunCharacter ++ replaceHome home after) := by
  have hrun : ∀ c ∈ letters ++ payload.takeWhile isRunCharacter, isRunCharacter c = true := by
    intro c hc
    rcases List.mem_append.mp hc with hc | hc
    · exact hletters c hc
    · exact List.mem_takeWhile_imp hc
  have hsplit : letters ++ (payload ++ replaceHome home after) =
      letters ++ payload.takeWhile isRunCharacter ++
        (payload.dropWhile isRunCharacter ++ replaceHome home after) := by
    rw [List.append_assoc, ← List.append_assoc (payload.takeWhile isRunCharacter),
      List.takeWhile_append_dropWhile]
  rw [hsplit]
  exact mapRuns_run_append redactRun_nil hrun h.break_after

theorem scan_invite (hapart : HomeApart home before payload after)
    (hseparate : ∀ c ∈ (replaceHome home before).getLast?, isRunCharacter c = false) :
    redactRuns (replaceHome home (before ++ ("cc1_".toList ++ payload ++ after))) =
      redactRuns (replaceHome home before) ++ ("[redacted invite]".toList ++
        redactRuns (payload.dropWhile isRunCharacter ++ replaceHome home after)) := by
  have hcode := h.scan_run home "cc1_".toList (by simp [isRunCharacter])
  rw [redactRun_invite] at hcode
  rw [hapart, List.append_assoc, ← hcode]
  exact mapRuns_append redactRun_nil hseparate _

theorem redacted_iff_of_separate (hapart : HomeApart home before payload after)
    (hseparate : ∀ c ∈ (replaceHome home before).getLast?, isRunCharacter c = false) :
    InviteRedacted home before payload after ↔
      isPath (unfinished isWhitespace (redactRuns (replaceHome home before)) ++
        "[redacted".toList) = false ∧
      redactedRest (redactRuns (payload.dropWhile isRunCharacter ++ replaceHome home after)) =
        redactedAfter home after := by
  have hmarker : "[redacted invite]".toList ++ redactedAfter home after =
      "[redacted".toList ++ (" invite]".toList ++ redactedAfter home after) := rfl
  rw [InviteRedacted, redactDiagnostic, h.scan_invite hapart hseparate, redactTokens_marker,
    redactedBefore, List.append_assoc, List.append_cancel_left_eq, hmarker]
  exact redactToken_eq_iff _ (fun _ => sep_of_mem_unfinished) _ _

theorem redactedAfter_head : '-' ∉ (redactedAfter home after).head? := by
  rw [redactedAfter]
  cases hafter : replaceHome home after with
  | nil =>
    rw [redactRuns, mapRuns_nil redactRun_nil]
    decide
  | cons c text =>
    have hc : isUrlSafe c = false := h.after_head c (by rw [hafter]; rfl)
    rw [redactRuns_cons (isRunCharacter_of_isUrlSafe hc), redactedRest]
    by_cases hspace : isWhitespace c = true
    · rw [List.takeWhile_cons_of_neg (by simp [hspace]), List.nil_append]
      cases words isWhitespace ((c :: redactRuns text).dropWhile (!isWhitespace ·)) with
      | nil => simp
      | cons word rest =>
        rw [List.flatMap_cons]
        simp
    · rw [List.takeWhile_cons_of_pos (by simp [hspace])]
      intro hmem
      cases hmem
      cases hc

/-- A hyphen that is left over shows in the output. -/
theorem rest_eq_iff :
    redactedRest (redactRuns (payload.dropWhile isRunCharacter ++ replaceHome home after)) =
      redactedAfter home after ↔ '-' ∉ payload := by
  rw [← h.dropWhile_eq_nil]
  cases hrest : payload.dropWhile isRunCharacter with
  | nil => rw [List.nil_append, redactedAfter, eq_self_iff_true, eq_self_iff_true]
  | cons c rest =>
    obtain rfl := h.dropWhile_cons hrest
    constructor
    · intro heq
      have hnot : '-' ∉ (redactedAfter home after).head? := h.redactedAfter_head
      apply absurd _ hnot
      rw [← heq, List.cons_append, redactRuns_cons (by decide)]
      rfl
    · intro hnil
      cases hnil

theorem scan_joined (home front : Text) :
    redactRuns (front ++ ("$HOME".toList ++ ("cc1_".toList ++ payload ++ replaceHome home after))) =
      redactRuns front ++ "$HOME".toList ++ ('c' :: ("c1_".toList ++
        payload.takeWhile isRunCharacter ++
          redactRuns (payload.dropWhile isRunCharacter ++ replaceHome home after))) := by
  have hletters : ∀ c ∈ "HOMEcc1_".toList, isRunCharacter c = true := by simp [isRunCharacter]
  have hsplit : front ++ ("$HOME".toList ++ ("cc1_".toList ++ payload ++ replaceHome home after)) =
      front ++ '$' :: ("HOMEcc1_".toList ++ (payload ++ replaceHome home after)) := rfl
  rw [hsplit, redactRuns, mapRuns_break _ _ (by decide), ← redactRuns, ← redactRuns,
    h.scan_run home _ hletters, redactRun_home, List.append_assoc, List.append_assoc]
  rfl

theorem not_redacted_of_joined (hapart : HomeApart home before payload after)
    (hjoined : "$HOME".toList <:+ replaceHome home before) :
    ¬ InviteRedacted home before payload after := by
  obtain ⟨front, hfront⟩ := hjoined
  intro hredacted
  have hbefore : redactRuns (replaceHome home before) = redactRuns front ++ "$HOME".toList := by
    have hhome : redactRuns "HOME".toList = "HOME".toList := by decide
    have hsplit : front ++ "$HOME".toList = front ++ '$' :: "HOME".toList := rfl
    rw [← hfront, hsplit, redactRuns, mapRuns_break _ _ (by decide), ← redactRuns, ← redactRuns,
      hhome]
    rfl
  rw [InviteRedacted, redactDiagnostic, hapart, ← hfront, List.append_assoc, h.scan_joined,
    redactedBefore, hbefore] at hredacted
  have hne : unfinished isWhitespace (redactRuns front ++ "$HOME".toList) ≠ [] := by
    rw [unfinished_append (by simp [isWhitespace])]
    simp
  exact redactTokens_ne_marker hne _ _ hredacted

end Delimited

/-- What it takes for a code to be replaced by its marker. -/
structure Recognised (home before payload after : Text) : Prop where
  apart : HomeApart home before payload after
  plain : '-' ∉ payload
  separate : ∀ c ∈ (replaceHome home before).getLast?, isRunCharacter c = false
  notPath : isPath (unfinished isWhitespace (redactRuns (replaceHome home before)) ++
    "[redacted".toList) = false

/-- The marker stands in place of a code whose payload has no hyphen, if neither the home directory
nor the start of a path runs into it, and only then if no home directory reaches into it. -/
theorem invite_redacted_iff (home before payload after : Text)
    (h : Delimited before payload after) :
    (Recognised home before payload after → InviteRedacted home before payload after) ∧
      (HomeApart home before payload after → InviteRedacted home before payload after →
        Recognised home before payload after) := by
  constructor
  · intro hrecognised
    rw [h.redacted_iff_of_separate hrecognised.apart hrecognised.separate, h.rest_eq_iff]
    exact ⟨hrecognised.notPath, hrecognised.plain⟩
  · intro hapart hredacted
    have hseparate : ∀ c ∈ (replaceHome home before).getLast?, isRunCharacter c = false := by
      intro c hc
      rcases replaceHome_end hc with hlast | hjoined
      · exact isRunCharacter_of_isUrlSafe (h.before c hlast)
      · exact absurd hredacted (h.not_redacted_of_joined hapart hjoined)
    rw [h.redacted_iff_of_separate hapart hseparate, h.rest_eq_iff] at hredacted
    exact ⟨hapart, hredacted.2, hseparate, hredacted.1⟩

theorem invite_redacted_iff_quoted : InviteRedacted "/home/ada".toList
    "from /home/ada/notes: ".toList "AbC_9z".toList ", sent".toList := by
  have h : Delimited "from /home/ada/notes: ".toList "AbC_9z".toList ", sent".toList :=
    ⟨by simp [isUrlSafe, isRunCharacter], by simp [isUrlSafe, isRunCharacter],
      by simp [isUrlSafe, isRunCharacter]⟩
  have hapart : HomeApart "/home/ada".toList "from /home/ada/notes: ".toList "AbC_9z".toList
      ", sent".toList := by
    unfold HomeApart
    decide +kernel
  have hseparate : ∀ c ∈ (replaceHome "/home/ada".toList "from /home/ada/notes: ".toList).getLast?,
      isRunCharacter c = false := by
    have hend : (replaceHome "/home/ada".toList "from /home/ada/notes: ".toList).getLast? =
        some ' ' := by decide +kernel
    intro c hc
    rw [hend] at hc
    cases hc
    decide
  apply (invite_redacted_iff "/home/ada".toList _ _ _ h).1
  exact ⟨hapart, by decide, hseparate, by decide +kernel⟩

end Codes

section CreatedCodes

def codeText (code : ByteString) : Text := code.map fun byte => Char.ofNat byte.toNat

theorem createCode_text {T : TextForms} {package code : ByteString} {peer : PeerId}
    {address : Multiaddr}
    (hsafe : ∀ bytes, ∀ c ∈ codeText (T.encode64 bytes), isUrlSafe c = true)
    (h : createCode T package peer address = .ok code) :
    ∃ payload, codeText code = "cc1_".toList ++ payload ∧ ∀ c ∈ payload, isUrlSafe c = true := by
  unfold createCode at h
  cases hvalid : validateAddress address with
  | error error =>
    rw [hvalid] at h
    split_ifs at h
  | ok _ =>
    rw [hvalid] at h
    dsimp only at h
    split_ifs at h
    cases h
    refine ⟨codeText (T.encode64 (T.envelope package peer address).toJson), ?_, hsafe _⟩
    rw [codeText, List.map_append]
    rfl

theorem base64Url_safe (bytes : ByteString) :
    ∀ c ∈ codeText (base64Url bytes), isUrlSafe c = true := by
  have hletter : ∀ n, isUrlSafe (Char.ofNat (base64Url.letter n).toNat) = true := by
    have hall : ∀ i < 64, isUrlSafe (Char.ofNat (base64Url.letter i).toNat) = true := by
      decide +kernel
    intro n
    have hmod : base64Url.letter n = base64Url.letter (n % 64) := by
      rw [base64Url.letter, base64Url.letter, Nat.mod_mod]
    rw [hmod]
    exact hall _ (Nat.mod_lt n (by decide))
  induction bytes using base64Url.induct with
  | case1 a b c rest ih =>
    rw [base64Url, codeText, List.map_append, List.forall_mem_append]
    exact ⟨by simp [hletter], ih⟩
  | case2 a b => simp [base64Url, codeText, hletter]
  | case3 a => simp [base64Url, codeText, hletter]
  | case4 => simp [base64Url, codeText]

/-- A host name may hold any characters but the slash. -/
def hyphenForms : TextForms :=
  { ticketForms with addressText := fun _ => "/dns4/~~~/udp/4001/quic-v1" }

def hyphenAddress : Multiaddr := [.other (utf8 "~~~"), .udp 4001, .quicV1]

def hyphenPayload : Text := codeText (base64Url (hyphenForms.envelope [1, 2, 3] endpointPeer
  hyphenAddress).toJson)

/-- The code of an endpoint whose name takes a hyphen in base64: the end of it is left over. -/
theorem hyphen_left_over :
    (createCode hyphenForms [1, 2, 3] endpointPeer hyphenAddress).map codeText =
        .ok ("cc1_".toList ++ hyphenPayload) ∧
      Delimited [] hyphenPayload [] ∧
      redactDiagnostic [] ([] ++ ("cc1_".toList ++ hyphenPayload ++ [])) =
        "[redacted invite]-L3VkcC80MDAxL3F1aWMtdjEifQ".toList ∧
      ¬ InviteRedacted [] [] hyphenPayload [] := by
  have hoff : redactDiagnostic [] ([] ++ ("cc1_".toList ++ hyphenPayload ++ [])) =
      "[redacted invite]-L3VkcC80MDAxL3F1aWMtdjEifQ".toList := by decide +kernel
  refine ⟨by decide +kernel, ⟨base64Url_safe _, by simp, by simp⟩, hoff, ?_⟩
  rw [InviteRedacted, hoff]
  decide +kernel

end CreatedCodes

end ChatCommons
