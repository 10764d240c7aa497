import QuestScript.Proofs.Statement.Fields
import QuestScript.Statement.Fields

/-!
Cutting the fields out of the bytes of a text.

Cutting keeps one invariant (`Fields.slicesFrom?_eq`): the text is what was cut off, the field that
has begun and what is still to be searched, all three on boundaries between characters, and the
search has met no comma in the field. So every cut succeeds, and the fields are those of the
characters.
-/

namespace QuestScript.Fields

open LinkSpan (Covers)

/-! ### Slices -/

variable {text front part back : String}

lemma exists_splits (h : text = front ++ back) : ∃ p : text.Pos, p.Splits front back := by
  have hvalid : (front.rawEndPos).IsValid text :=
    String.Pos.Raw.isValid_iff_exists_append.mpr ⟨front, back, h, rfl⟩
  exact ⟨text.pos front.rawEndPos hvalid, ⟨h, rfl⟩⟩

lemma pos?_of_splits {p : text.Pos} (h : p.Splits front back) :
    text.pos? ⟨front.utf8ByteSize⟩ = some p := by
  have hoffset : (⟨front.utf8ByteSize⟩ : String.Pos.Raw) = p.offset := h.offset_eq_rawEndPos.symm
  have hvalid : String.Pos.Raw.isValidForSlice text.toSlice ⟨front.utf8ByteSize⟩ = true := by
    rw [String.Pos.Raw.isValidForSlice_eq_true_iff, String.Pos.Raw.isValidForSlice_toSlice_iff,
      hoffset]
    exact p.isValid
  rw [String.pos?, String.Slice.pos?, dif_pos hvalid, Option.map_some]
  exact congrArg some (String.Pos.ext hoffset)

lemma slice?_append (h : text = front ++ part ++ back) :
    slice? text front.utf8ByteSize (front ++ part).utf8ByteSize = some part := by
  obtain ⟨first, hfirst⟩ := exists_splits (h.trans String.append_assoc)
  obtain ⟨last, hlast⟩ := exists_splits h
  obtain ⟨hle, hcopy⟩ := String.copy_slice_eq_iff_splits.mpr ⟨front, back, hfirst, hlast⟩
  simp only [slice?, pos?_of_splits hfirst, pos?_of_splits hlast, String.slice?, dif_pos hle, hcopy,
    Option.bind_eq_bind, Option.bind_some, Option.pure_def]

lemma getElem?_offsets (start : Nat) (front : List Char) (c : Char) (back : List Char) :
    (offsets start (front ++ c :: back))[front.length]? =
      some (start + (String.ofList front).utf8ByteSize) := by
  induction front generalizing start with
  | nil => simp [offsets]
  | cons d front ih =>
    rw [List.cons_append, offsets, List.length_cons, List.getElem?_cons_succ, ih]
    simp [String.ofList_cons, Nat.add_assoc]

/-! ### The search -/

lemma comma?_comma (rest : List Char) : comma? (',' :: rest) = some 0 := by
  rw [comma?, if_pos rfl]

lemma comma?_of_span {c : Char} {rest : List Char} {n : Nat}
    (h : LinkSpan.length? (c :: rest) = some n) :
    comma? (c :: rest) = (comma? ((c :: rest).drop n)).map (n + ·) := by
  obtain ⟨n, rfl⟩ := Nat.exists_eq_add_of_lt (LinkSpan.length?_le h).1
  have hc : c ≠ ',' := by
    rintro rfl
    simp [LinkSpan.length?_of_ne rest] at h
  rw [comma?, if_neg hc]
  simp only [h, Option.getD_some, Nat.add_sub_cancel, List.drop_succ_cons]
  exact congrArg (Option.map · _) (funext fun k => by omega)

lemma comma?_of_ne {c : Char} {rest : List Char} (h : LinkSpan.length? (c :: rest) = none)
    (hc : c ≠ ',') : comma? (c :: rest) = (comma? rest).map (1 + ·) := by
  rw [comma?, if_neg hc]
  simp only [h, Option.getD_none, Nat.sub_self, List.drop_zero]
  exact congrArg (Option.map · _) (funext fun k => by omega)

/-- Where cutting has come to: behind what was cut off and the field that has begun, in which the
search has met no comma, there is the rest to search. -/
structure Cutting (text front part : String) (start i : Nat) (rest : List Char) : Prop where
  text : text = front ++ part ++ String.ofList rest
  start : start = front.utf8ByteSize
  place : i = (front ++ part).length
  search : comma? (part.toList ++ rest) = (comma? rest).map (part.length + ·)

namespace Cutting

variable {start i n : Nat} {rest : List Char}

lemma last (h : Cutting text front part start i rest) :
    slice? text start text.utf8ByteSize = some (part ++ String.ofList rest) := by
  have htext : text = front ++ (part ++ String.ofList rest) := h.text.trans String.append_assoc
  have hslice := slice?_append (htext.trans String.append_empty.symm)
  rwa [← htext, ← h.start] at hslice

lemma pass (h : Cutting text front part start i rest) (hn : n ≤ rest.length)
    (hrest : comma? rest = (comma? (rest.drop n)).map (n + ·)) :
    Cutting text front (part ++ String.ofList (rest.take n)) start (i + n) (rest.drop n) := by
  refine ⟨?_, h.start, ?_, ?_⟩
  · have hsplit :
        String.ofList rest = String.ofList (rest.take n) ++ String.ofList (rest.drop n) := by
      rw [← String.ofList_append, List.take_append_drop]
    rw [h.text, hsplit, ← String.append_assoc, ← String.append_assoc]
  · simp only [h.place, String.length_append, String.length_ofList, List.length_take_of_le hn,
      Nat.add_assoc]
  · have hsearch := h.search
    rw [hrest, Option.map_map] at hsearch
    rw [String.toList_append, String.toList_ofList, List.append_assoc, List.take_append_drop,
      hsearch, String.length_append, String.length_ofList, List.length_take_of_le hn]
    exact congrArg (Option.map · _) (funext fun k => by simp [Nat.add_assoc])

lemma cut (h : Cutting text front part start i (',' :: rest)) :
    (offsets 0 text.toList)[i]? = some (front ++ part).utf8ByteSize ∧
      slice? text start (front ++ part).utf8ByteSize = some part ∧
      Cutting text (front ++ part ++ ",") "" ((front ++ part).utf8ByteSize + 1) (i + 1) rest := by
  have htext : text = front ++ part ++ "," ++ String.ofList rest := by
    rw [h.text, String.ofList_cons, ← String.append_assoc]
    rfl
  refine ⟨?_, ?_, ?_, ?_, ?_, ?_⟩
  · have hlist : text.toList = (front ++ part).toList ++ ',' :: rest := by
      rw [h.text, String.toList_append, String.toList_ofList]
    rw [hlist, h.place, ← String.length_toList, getElem?_offsets, String.ofList_toList,
      Nat.zero_add]
  · rw [h.start]
    exact slice?_append h.text
  · rw [String.append_empty, htext]
  · exact (String.utf8ByteSize_append (s := front ++ part) (t := ",")).symm
  · rw [String.append_empty, String.length_append, h.place]
    rfl
  · simp

end Cutting

/-- **Cutting out of bytes never fails.** It goes on as splitting does from where the field that has
begun starts. -/
theorem slicesFrom?_eq {max n start i : Nat} {fields : List String} {rest : List Char}
    (h : Cutting text front part start i rest) (hmax : fields.length + n + 1 = max) :
    slicesFrom? text max fields start i rest =
      some (fields ++ (split n (part.toList ++ rest)).map String.ofList) := by
  fun_induction slicesFrom? text max fields start i rest generalizing front part n with
  | case1 fields start i =>
    -- the end of the text
    have hnone : comma? (part.toList ++ []) = none := by rw [h.search, comma?, Option.map_none]
    rw [split_of_none hnone, h.last]
    simp
  | case2 fields start i c rest hfull =>
    -- no more cuts are allowed
    obtain rfl : n = 0 := by omega
    simp [h.last, split]
  | case3 fields start i c rest hfull m hspan ih =>
    -- a link span is passed over as a whole
    obtain ⟨hpos, hle⟩ := LinkSpan.length?_le hspan
    have hdrop : (c :: rest).drop m = rest.drop (m - 1) := by
      obtain ⟨m, rfl⟩ := Nat.exists_eq_add_of_lt hpos
      rfl
    have hpass := h.pass hle (comma?_of_span hspan)
    rw [hdrop] at hpass
    rw [ih hpass hmax, String.toList_append, String.toList_ofList, List.append_assoc, ← hdrop,
      List.take_append_drop]
  | case4 fields start i rest hfull hspan ih =>
    -- a comma outside of link spans, where the field that has begun is cut off
    obtain ⟨n, rfl⟩ : ∃ k, n = k + 1 := ⟨n - 1, by omega⟩
    obtain ⟨hcomma, hfield, hnext⟩ := h.cut
    have hfirst : comma? (part.toList ++ ',' :: rest) = some part.toList.length := by
      rw [h.search, comma?_comma, Option.map_some, Nat.add_zero, String.length_toList]
    have hcount : (fields ++ [part]).length + n + 1 = max := by
      rw [List.length_append, List.length_singleton]
      omega
    rw [hcomma, Option.bind_eq_bind, Option.bind_some, hfield, Option.bind_eq_bind,
      Option.bind_some, ih _ _ hnext hcount, split_of_some hfirst]
    simp
  | case5 fields start i c rest hfull hspan hc ih =>
    have hpass := h.pass (n := 1) (by simp) (comma?_of_ne hspan hc)
    rw [ih hpass hmax, String.toList_append, String.toList_ofList, List.append_assoc]
    rfl

/-! ### Fields -/

/-- **Splitting into fields loses nothing.** A text is split into at most so many fields, and always
into one. They are cut out of its bytes at boundaries between characters, and with the commas put
back between them they are the text. The commas they are split at are the first ones that no link
span of the text covers. So a field with another one behind it holds commas only inside of link
spans, and the same is true of the last field where there is room for more. -/
theorem split_separators (n : Nat) (text : String) :
    slices? text (n + 1) = some ((split n text.toList).map String.ofList) ∧
      1 ≤ (split n text.toList).length ∧ (split n text.toList).length ≤ n + 1 ∧
      [','].intercalate (split n text.toList) = text.toList ∧
      seams 0 (split n text.toList) = (separators text.toList).take n ∧
      ∀ front field back, split n text.toList = front ++ field :: back →
        (back ≠ [] ∨ (split n text.toList).length < n + 1) →
          ∀ k, field[k]? = some ',' → Covers text.toList (extent front + k) := by
  have hstart : Cutting text "" "" 0 0 text.toList := ⟨by simp, rfl, rfl, by simp⟩
  refine ⟨slicesFrom?_eq hstart (by simp), ?_, length_split_le n text.toList,
    intercalate_split n text.toList, ?_, ?_⟩
  · exact List.length_pos_iff.mpr (split_ne_nil n text.toList)
  · simpa using seams_split 0 n text.toList
  · intro front field back h hroom k hcomma
    exact covers_of_split h (hroom.imp_right Nat.le_of_lt_succ) hcomma

/-- Commas in a link span, two bytes to a letter, and a bracket that opens nothing. -/
example : slices? "p [[да, нет|goto ж]] & goto й, [[, x" 3 =
    some ["p [[да, нет|goto ж]] & goto й", " [[", " x"] := by decide +kernel

/-- A cut in the middle of a letter would fail. -/
example : slice? "жук" 1 3 = none := by decide +kernel

end QuestScript.Fields
