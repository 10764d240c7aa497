import QuestScript.Proofs.Suggestion.Distance
import QuestScript.Proofs.Text.Lowercase

/-!
The keyword that a word was meant for.

The search goes through the keywords once and keeps the best one so far. So it finds the first of
the nearest keywords among those whose size does not differ too much from that of the word
(`nearest?_eq_some_iff`). Sizes are counted in bytes, and letters that are no ASCII letters have
several. The keyword that is found is the nearest of all, within the limit for words of so many
characters, exactly where that makes no difference (`nearest?_eq_suggestion?_iff`), and so in ASCII
(`nearest?_of_isAscii`).
-/

namespace QuestScript.Suggestion

open Text

variable {word keyword k : String} {keywords : List String}

/-- The keyword is the first one at the least distance from the word. -/
def IsFirstNearest (word : String) (keywords : List String) (k : String) : Prop :=
  ∃ front back, keywords = front ++ k :: back ∧
    (∀ o ∈ front, distance word k < distance word o) ∧
    ∀ o ∈ back, distance word k ≤ distance word o

/-- The keywords whose size in bytes does not differ too much from that of the word. -/
def considered (word : String) (keywords : List String) : List String :=
  keywords.filter fun keyword => !tooDifferent word keyword

/-! ### The first keyword at the least distance -/

lemma not_isFirstNearest_nil : ¬IsFirstNearest word [] k := by
  rintro ⟨front, back, h, -⟩
  simp at h

lemma isFirstNearest_cons : IsFirstNearest word (keyword :: keywords) k ↔
    (k = keyword ∧ ∀ o ∈ keywords, distance word keyword ≤ distance word o) ∨
      (IsFirstNearest word keywords k ∧ distance word k < distance word keyword) := by
  constructor
  · rintro ⟨_ | ⟨first, front⟩, back, h, hfront, hback⟩
    · obtain ⟨rfl, rfl⟩ := List.cons.inj h
      exact .inl ⟨rfl, hback⟩
    · obtain ⟨rfl, rfl⟩ := List.cons.inj h
      rw [List.forall_mem_cons] at hfront
      exact .inr ⟨⟨front, back, rfl, hfront.2, hback⟩, hfront.1⟩
  · rintro (⟨rfl, hback⟩ | ⟨⟨front, back, rfl, hfront, hback⟩, hlt⟩)
    · exact ⟨[], keywords, rfl, by simp, hback⟩
    · exact ⟨keyword :: front, back, rfl, List.forall_mem_cons.mpr ⟨hlt, hfront⟩, hback⟩

namespace IsFirstNearest

lemma mem (h : IsFirstNearest word keywords k) : k ∈ keywords := by
  obtain ⟨front, back, rfl, -⟩ := h
  simp

lemma le (h : IsFirstNearest word keywords k) :
    ∀ o ∈ keywords, distance word k ≤ distance word o := by
  obtain ⟨front, back, rfl, hfront, hback⟩ := h
  exact List.forall_mem_append.mpr ⟨fun o ho => Nat.le_of_lt (hfront o ho),
    List.forall_mem_cons.mpr ⟨Nat.le_refl _, hback⟩⟩

lemma eq {k' : String} (h : IsFirstNearest word keywords k) (h' : IsFirstNearest word keywords k') :
    k = k' := by
  induction keywords with
  | nil => exact absurd h not_isFirstNearest_nil
  | cons keyword keywords ih =>
    rcases isFirstNearest_cons.mp h with ⟨rfl, hle⟩ | ⟨hrest, hlt⟩ <;>
      rcases isFirstNearest_cons.mp h' with ⟨rfl, hle'⟩ | ⟨hrest', hlt'⟩
    · rfl
    · exact absurd (hle _ hrest'.mem) (Nat.not_le_of_lt hlt')
    · exact absurd (hle' _ hrest.mem) (Nat.not_le_of_lt hlt)
    · exact ih hrest hrest'

lemma filter {p : String → Bool} (h : IsFirstNearest word keywords k) (hk : p k = true) :
    IsFirstNearest word (keywords.filter p) k := by
  obtain ⟨front, back, rfl, hfront, hback⟩ := h
  refine ⟨front.filter p, back.filter p, ?_, fun o ho => hfront o (List.mem_filter.mp ho).1,
    fun o ho => hback o (List.mem_filter.mp ho).1⟩
  rw [List.filter_append, List.filter_cons_of_pos hk]

end IsFirstNearest

lemma exists_isFirstNearest (word : String) (h : keywords ≠ []) :
    ∃ k, IsFirstNearest word keywords k := by
  induction keywords with
  | nil => exact absurd rfl h
  | cons keyword keywords ih =>
    by_cases hle : ∀ o ∈ keywords, distance word keyword ≤ distance word o
    · exact ⟨keyword, isFirstNearest_cons.mpr (.inl ⟨rfl, hle⟩)⟩
    · push Not at hle
      obtain ⟨o, ho, hlt⟩ := hle
      obtain ⟨k, hk⟩ := ih (List.ne_nil_of_mem ho)
      exact ⟨k, isFirstNearest_cons.mpr (.inr ⟨hk, Nat.lt_of_le_of_lt (hk.le o ho) hlt⟩)⟩

/-! ### What is suggested -/

lemma distance_lowercase (word keyword : String) :
    distance (String.ofList (lowercase word.toList)) keyword = distance word keyword := by
  rw [distance, String.toList_ofList, lowercase_lowercase, distance]

lemma considered_cons (h : tooDifferent word keyword = false) :
    considered word (keyword :: keywords) = keyword :: considered word keywords :=
  List.filter_cons_of_pos (by simp [h])

lemma considered_cons_of_tooDifferent (h : tooDifferent word keyword = true) :
    considered word (keyword :: keywords) = considered word keywords :=
  List.filter_cons_of_neg (by simp [h])

/-- The keyword is the best one so far, and none of the others is nearer. Or it is the first of the
nearest ones among the others, and nearer than the best one so far. -/
def Found (word : String) (best : Option (String × Nat)) (others : List String) (k : String) :
    Prop :=
  (∃ d, best = some (k, d) ∧ ∀ o ∈ others, d ≤ distance word o) ∨
    IsFirstNearest word others k ∧ 0 < distance word k ∧ distance word k ≤ limit word ∧
      ∀ entry ∈ best, distance word k < entry.2

/-- A best keyword so far is one that can be suggested. -/
def IsSuggestible (word : String) (best : Option (String × Nat)) : Prop :=
  ∀ entry ∈ best, 0 < entry.2 ∧ entry.2 ≤ limit word

variable {best : Option (String × Nat)}

lemma not_found_of_zero (hbest : IsSuggestible word best) (hzero : distance word keyword = 0) :
    ¬Found word best (keyword :: keywords) k := by
  rintro (⟨d, rfl, hall⟩ | ⟨hfirst, hpos, -⟩)
  · have hd := hall keyword List.mem_cons_self
    have := (hbest _ rfl).1
    omega
  · have hk := hfirst.le keyword List.mem_cons_self
    omega

lemma found_cons_of_nearer (hpos : 0 < distance word keyword)
    (hle : distance word keyword ≤ limit word)
    (hlt : ∀ entry ∈ best, distance word keyword < entry.2) :
    Found word best (keyword :: keywords) k ↔
      Found word (some (keyword, distance word keyword)) keywords k := by
  unfold Found
  simp only [List.forall_mem_cons, isFirstNearest_cons]
  constructor
  · rintro (⟨d, rfl, hd, -⟩ | ⟨⟨rfl, hall⟩ | ⟨hfirst, hk⟩, hpos, hlimit, -⟩)
    · exact absurd hd (Nat.not_le_of_lt (hlt _ rfl))
    · exact .inl ⟨_, rfl, hall⟩
    · exact .inr ⟨hfirst, hpos, hlimit, by simpa using hk⟩
  · rintro (⟨d, hentry, hall⟩ | ⟨hfirst, hpos, hlimit, hnearer⟩)
    · obtain ⟨rfl, rfl⟩ := Prod.mk.inj (Option.some.inj hentry)
      exact .inr ⟨.inl ⟨rfl, hall⟩, hpos, hle, hlt⟩
    · have hk := hnearer _ rfl
      exact .inr ⟨.inr ⟨hfirst, hk⟩, hpos, hlimit, fun entry hentry =>
        Nat.lt_trans hk (hlt entry hentry)⟩

lemma found_cons_of_farther (hbest : IsSuggestible word best)
    (hfar : limit word < distance word keyword ∨
      ∃ entry ∈ best, entry.2 ≤ distance word keyword) :
    Found word best (keyword :: keywords) k ↔ Found word best keywords k := by
  unfold Found
  simp only [List.forall_mem_cons, isFirstNearest_cons]
  constructor
  · rintro (⟨d, rfl, -, hall⟩ | ⟨⟨rfl, -⟩ | ⟨hfirst, -⟩, hpos, hlimit, hnearer⟩)
    · exact .inl ⟨d, rfl, hall⟩
    · rcases hfar with hfar | ⟨entry, hentry, hle⟩
      · exact absurd hlimit (Nat.not_le_of_lt hfar)
      · exact absurd (hnearer entry hentry) (Nat.not_lt_of_le hle)
    · exact .inr ⟨hfirst, hpos, hlimit, hnearer⟩
  · rintro (⟨d, rfl, hall⟩ | ⟨hfirst, hpos, hlimit, hnearer⟩)
    · refine .inl ⟨d, rfl, ?_, hall⟩
      rcases hfar with hfar | ⟨entry, hentry, hle⟩
      · exact Nat.le_of_lt (Nat.lt_of_le_of_lt (hbest _ rfl).2 hfar)
      · obtain rfl := Option.some.inj hentry
        exact hle
    · refine .inr ⟨.inr ⟨hfirst, ?_⟩, hpos, hlimit, hnearer⟩
      rcases hfar with hfar | ⟨entry, hentry, hle⟩
      · exact Nat.lt_of_le_of_lt hlimit hfar
      · exact Nat.lt_of_lt_of_le (hnearer entry hentry) hle

lemma nearestFrom_eq_some_iff (hbest : IsSuggestible word best) :
    nearestFrom word best keywords = some k ↔
      Found word best (considered word keywords) k := by
  induction keywords generalizing best with
  | nil =>
    have hnil : considered word [] = [] := rfl
    rcases best with _ | ⟨o, d⟩ <;> simp [nearestFrom, Found, hnil, not_isFirstNearest_nil]
  | cons keyword keywords ih =>
    rcases hkept : tooDifferent word keyword with _ | _
    -- a keyword that is passed over
    case true =>
      rw [nearestFrom, if_pos hkept, considered_cons_of_tooDifferent hkept, ih hbest]
    rw [nearestFrom, if_neg (by simp [hkept]), distance_lowercase, considered_cons hkept]
    simp only
    split
    · -- the word itself is a keyword
      next hzero => exact iff_of_false (by simp) (not_found_of_zero hbest hzero)
    next hne =>
    have hpos := Nat.pos_of_ne_zero hne
    split
    · -- the keyword becomes the best one so far
      next hnearer =>
      simp only [Bool.and_eq_true, decide_eq_true_eq, Option.all_eq_true] at hnearer
      rw [found_cons_of_nearer hpos hnearer.1 hnearer.2]
      exact ih (by simpa [IsSuggestible] using ⟨hpos, hnearer.1⟩)
    · -- it makes no difference
      next hfarther =>
      simp only [Bool.and_eq_true, decide_eq_true_eq, Option.all_eq_true] at hfarther
      rw [found_cons_of_farther hbest, ih hbest]
      by_contra hnot
      push Not at hnot
      exact hfarther hnot

lemma nearest?_eq_some_iff : nearest? word keywords = some k ↔
    2 < word.length ∧ IsFirstNearest word (considered word keywords) k ∧ 0 < distance word k ∧
      distance word k ≤ limit word := by
  rw [nearest?]
  split
  · next hshort => simp [Nat.not_lt_of_le hshort]
  · next hlong =>
    rw [nearestFrom_eq_some_iff (by simp [IsSuggestible])]
    simp [Found, Nat.lt_of_not_le hlong]

/-! ### What is to be suggested -/

/-- The distance up to which a keyword is to be suggested, by the size of the word in characters. -/
def characterLimit (word : String) : Nat := if 4 ≤ word.length then 2 else 1

/-- The keyword that is to be suggested, if sizes count characters and none of the keywords is
passed over: the first one at the least distance, up to the limit. There is none for a word of at
most two characters and for one that is itself a keyword. -/
def suggestion? (word : String) (keywords : List String) : Option String :=
  if word.length ≤ 2 ∨ ∃ keyword ∈ keywords, distance word keyword = 0 then none
  else
    match (keywords.map (distance word)).min? with
    | some least =>
      if least ≤ characterLimit word then keywords.find? (distance word · = least) else none
    | none => none

lemma suggestion?_of_isFirstNearest (h : IsFirstNearest word keywords k) :
    suggestion? word keywords =
      if 2 < word.length ∧ 0 < distance word k ∧ distance word k ≤ characterLimit word then some k
      else none := by
  have hleast : (keywords.map (distance word)).min? = some (distance word k) := by
    rw [List.min?_eq_some_iff]
    exact ⟨List.mem_map_of_mem h.mem, by simpa using h.le⟩
  have hfind : keywords.find? (distance word · = distance word k) = some k := by
    obtain ⟨front, back, rfl, hfront, -⟩ := h
    rw [List.find?_eq_some_iff_append]
    refine ⟨by simp, front, back, rfl, fun o ho => ?_⟩
    simpa using Nat.ne_of_gt (hfront o ho)
  have hzero : (∃ keyword ∈ keywords, distance word keyword = 0) ↔ distance word k = 0 := by
    refine ⟨fun ⟨o, ho, hdistance⟩ => Nat.le_zero.mp (hdistance ▸ h.le o ho), fun hk =>
      ⟨k, h.mem, hk⟩⟩
  simp only [suggestion?, hleast, hzero, hfind]
  by_cases hnone : word.length ≤ 2 ∨ distance word k = 0
  · rw [if_pos hnone, if_neg (by omega)]
  · rw [if_neg hnone]
    exact if_congr (by omega) rfl rfl

lemma suggestion?_eq_some_iff : suggestion? word keywords = some k ↔
    2 < word.length ∧ IsFirstNearest word keywords k ∧ 0 < distance word k ∧
      distance word k ≤ characterLimit word := by
  rcases keywords with _ | ⟨keyword, rest⟩
  · simp [suggestion?, not_isFirstNearest_nil]
  obtain ⟨first, hfirst⟩ := exists_isFirstNearest word (List.cons_ne_nil keyword rest)
  rw [suggestion?_of_isFirstNearest hfirst, Option.ite_none_right_eq_some, Option.some.injEq]
  constructor
  · rintro ⟨⟨hlong, hpos, hle⟩, rfl⟩
    exact ⟨hlong, hfirst, hpos, hle⟩
  · rintro ⟨hlong, hk, hpos, hle⟩
    obtain rfl := hfirst.eq hk
    exact ⟨⟨hlong, hpos, hle⟩, rfl⟩

/-! ### Where both are the same -/

/-- Counting bytes makes no difference. The keyword that is to be suggested is not passed over, and
the nearest one of those that are considered, if it is suggested, is near enough by the size of the
word in characters and no farther than any other. -/
structure CountsAlike (word : String) (keywords : List String) : Prop where
  kept (k : String) (hk : IsFirstNearest word keywords k) (hpos : 0 < distance word k)
    (hle : distance word k ≤ characterLimit word) : tooDifferent word k = false
  nearest (k : String) (hk : IsFirstNearest word (considered word keywords) k)
    (hpos : 0 < distance word k) (hle : distance word k ≤ limit word) :
    distance word k ≤ characterLimit word ∧ ∀ o ∈ keywords, distance word k ≤ distance word o

lemma utf8ByteSize_eq (text : String) :
    text.utf8ByteSize = (text.toList.flatMap String.utf8EncodeChar).length := by
  rw [String.utf8ByteSize, ← String.utf8Encode_toList, List.utf8Encode, List.size_toByteArray]

lemma length_le_utf8ByteSize (text : String) : text.length ≤ text.utf8ByteSize := by
  rw [utf8ByteSize_eq, ← String.length_toList]
  induction text.toList with
  | nil => simp
  | cons c cs ih =>
    have := c.utf8Size_pos
    rw [List.length_cons, List.flatMap_cons, List.length_append, String.length_utf8EncodeChar]
    omega

lemma characterLimit_le (word : String) : characterLimit word ≤ limit word := by
  have := length_le_utf8ByteSize word
  unfold characterLimit limit
  split <;> split <;> omega

lemma CountsAlike.nearest?_eq (h : CountsAlike word keywords) :
    nearest? word keywords = suggestion? word keywords := by
  refine Option.ext fun k => ?_
  rw [nearest?_eq_some_iff, suggestion?_eq_some_iff]
  constructor
  · rintro ⟨hlong, hk, hpos, hle⟩
    obtain ⟨hlimit, hall⟩ := h.nearest k hk hpos hle
    have hmem : k ∈ keywords := (List.mem_filter.mp hk.mem).1
    obtain ⟨first, hfirst⟩ := exists_isFirstNearest word (List.ne_nil_of_mem hmem)
    have hsame : distance word first = distance word k :=
      Nat.le_antisymm (hfirst.le k hmem) (hall first hfirst.mem)
    have hkept := h.kept first hfirst (hsame ▸ hpos) (hsame ▸ hlimit)
    obtain rfl := hk.eq (hfirst.filter (by simp [hkept]))
    exact ⟨hlong, hfirst, hpos, hlimit⟩
  · rintro ⟨hlong, hk, hpos, hle⟩
    have hkept := h.kept k hk hpos hle
    exact ⟨hlong, hk.filter (by simp [hkept]), hpos, Nat.le_trans hle (characterLimit_le word)⟩

/-- **Where sizes in bytes do not matter.** The keyword that is suggested is the first one at the
least distance, up to the limit, exactly for words of at most two characters and where counting
bytes makes no difference. -/
theorem nearest?_eq_suggestion?_iff (word : String) (keywords : List String) :
    nearest? word keywords = suggestion? word keywords ↔
      word.length ≤ 2 ∨ CountsAlike word keywords := by
  constructor
  · intro h
    refine Nat.lt_or_ge 2 word.length |>.symm.imp_right fun hlong => ⟨fun k hk hpos hle => ?_,
      fun k hk hpos hle => ?_⟩
    · have hsuggested := suggestion?_eq_some_iff.mpr ⟨hlong, hk, hpos, hle⟩
      obtain ⟨-, hfirst, -⟩ := nearest?_eq_some_iff.mp (h.trans hsuggested)
      simpa using (List.mem_filter.mp hfirst.mem).2
    · have hnearest := nearest?_eq_some_iff.mpr ⟨hlong, hk, hpos, hle⟩
      obtain ⟨-, hfirst, -, hlimit⟩ := suggestion?_eq_some_iff.mp (h.symm.trans hnearest)
      exact ⟨hlimit, hfirst.le⟩
  · rintro (hshort | halike)
    · rw [nearest?, suggestion?, if_pos hshort, if_pos (.inl hshort)]
    · exact halike.nearest?_eq

/-- Two letters too many, of two bytes each. -/
theorem not_suggested_of_bytes :
    nearest? "gotoжж" Suggestion.keywords = none ∧
      suggestion? "gotoжж" Suggestion.keywords = some "goto" := by
  decide +kernel

/-- Two wrong letters in a word of three, which has five bytes. -/
example : nearest? "eжд" Suggestion.keywords = some "end" ∧
    suggestion? "eжд" Suggestion.keywords = none := by
  decide

/-! ### Words in ASCII -/

/-- Counting bytes makes no difference if the limit does not depend on it and no keyword up to the
limit is passed over. -/
lemma countsAlike_of_considered (hlimit : characterLimit word = limit word)
    (hkept : ∀ o ∈ keywords, distance word o ≤ limit word → tooDifferent word o = false) :
    CountsAlike word keywords where
  kept k hk _ hle := hkept k hk.mem (hlimit ▸ hle)
  nearest k hk _ hle := by
    refine ⟨hlimit ▸ hle, fun o ho => ?_⟩
    rcases hfar : tooDifferent word o with _ | _
    · exact hk.le o (List.mem_filter.mpr ⟨ho, by simp [hfar]⟩)
    · refine Nat.le_of_lt (Nat.lt_of_le_of_lt hle (Nat.lt_of_not_le fun hnear => ?_))
      simp [hkept o ho hnear] at hfar

/-- All characters of the text are ASCII characters. -/
def IsAscii (text : String) : Prop := ∀ c ∈ text.toList, c.toNat < 0x80

lemma IsAscii.utf8ByteSize_eq {text : String} (h : IsAscii text) :
    text.utf8ByteSize = text.length := by
  have hone : ∀ c ∈ text.toList, (String.utf8EncodeChar c).length = 1 := fun c hc => by
    rw [String.length_utf8EncodeChar, Char.utf8Size_eq_one_iff]
    exact UInt32.le_iff_toNat_le.mpr (Nat.le_of_lt_succ (h c hc))
  rw [Suggestion.utf8ByteSize_eq, List.length_flatMap, List.map_congr_left hone, List.map_const',
    List.sum_replicate_nat, String.length_toList, Nat.mul_one]

lemma IsAscii.length_lowercase {text : String} (h : IsAscii text) :
    (lowercase text.toList).length = text.length := by
  have hafter (before : List Char) {cs : List Char} (hcs : ∀ c ∈ cs, c.toNat < 0x80) :
      (lowercaseAfter before cs).length = cs.length := by
    induction cs generalizing before with
    | nil => rfl
    | cons c cs ih =>
      obtain ⟨hc, hcs⟩ := List.forall_mem_cons.mp hcs
      have hsigma : c ≠ 'Σ' := by
        rintro rfl
        exact absurd hc (by decide)
      rw [lowercaseAfter, if_neg hsigma, lowerChar, if_pos hc, List.length_append, ih _ hcs,
        List.length_singleton, List.length_cons, Nat.add_comm]
  rw [lowercase, hafter [] h, String.length_toList]

/-- **In ASCII the filter by size never changes the answer.** For a word and keywords in ASCII the
first keyword at the least distance is suggested, up to the limit. -/
theorem nearest?_of_isAscii (hword : IsAscii word) (hkeywords : ∀ o ∈ keywords, IsAscii o) :
    nearest? word keywords = suggestion? word keywords := by
  have hlimit : limit word = characterLimit word := by
    rw [limit, characterLimit, hword.utf8ByteSize_eq]
  have htwo : limit word ≤ 2 := by
    unfold limit
    split <;> omega
  refine (countsAlike_of_considered hlimit.symm fun o ho hle => ?_).nearest?_eq
  have hedits := edits_editDistance (lowercase word.toList) (lowercase o.toList)
  rw [← exactDistance_eq, ← distance] at hedits
  have hlength := hedits.length_le
  have hlength' := hedits.symm.length_le
  rw [hword.length_lowercase, (hkeywords o ho).length_lowercase] at hlength hlength'
  simp only [tooDifferent, hword.utf8ByteSize_eq, (hkeywords o ho).utf8ByteSize_eq,
    Bool.or_eq_false_iff, decide_eq_false_iff_not]
  omega

end QuestScript.Suggestion
