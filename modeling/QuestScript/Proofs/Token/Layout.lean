import QuestScript.Proofs.Token.Piecewise

/-!
Where tokens lie in their source.

Lexemes follow one another in reading order, and a payload stays on one line and ends in front of
the lexeme behind it. Line breaks come from line feeds and separators from ampersands, so a text
without line feeds is a single line.
-/

namespace QuestScript

open Text

/-! ### Payloads stay on their line -/

namespace LinkSpan

lemma notMem_take {cs : List Char} {n : Nat} (h : length? cs = some n) : '\n' ∉ cs.take n := by
  obtain ⟨inner, hinner, rfl⟩ := Option.map_eq_some_iff.mp h
  obtain ⟨rest, rfl, -, hline⟩ := eq_append_of_inner? hinner
  have hlist : '[' :: '[' :: inner ++ ']' :: ']' :: rest =
      ('[' :: '[' :: (inner ++ [']', ']'])) ++ rest := by simp
  have hlen : ('[' :: '[' :: (inner ++ [']', ']'])).length = inner.length + 4 := by simp
  rw [hlist, ← hlen, List.take_left]
  simpa using hline

lemma notMem_take_step {c : Char} {rest : List Char} (hc : c ≠ '\n') :
    '\n' ∉ (c :: rest).take (((length? (c :: rest)).getD 1) - 1 + 1) := by
  rcases h : length? (c :: rest) with _ | n
  · simpa using hc.symm
  · have hn := (length?_le h).1
    simp only [Option.getD_some]
    rw [show n - 1 + 1 = n by omega]
    exact notMem_take h

end LinkSpan

namespace Payload

lemma notMem_take_add {c : Char} {rest : List Char} {more n : Nat}
    (h : '\n' ∉ (c :: rest).take (more + 1)) (htail : '\n' ∉ (rest.drop more).take n) :
    '\n' ∉ (c :: rest).take (n + more + 1) := by
  rw [show n + more + 1 = more + 1 + n by omega, List.take_add, List.drop_succ_cons]
  rw [List.mem_append, not_or]
  exact ⟨h, htail⟩

lemma notMem_take_extent (elseEnds fresh : Bool) (cs : List Char) :
    '\n' ∉ cs.take (extent elseEnds fresh cs).1 := by
  fun_induction extent elseEnds fresh cs with
  | case1 => simp
  | case2 => simp
  | case3 => simp
  | case4 => simp
  | case5 fresh c rest hc _ _ more tail ih =>
    exact notMem_take_add (LinkSpan.notMem_take_step hc) ih

lemma notMem_take_comma {elseEnds fresh : Bool} {cs : List Char} {n : Nat}
    (h : comma? elseEnds fresh cs = some n) : '\n' ∉ cs.take (n + 1) := by
  fun_induction comma? elseEnds fresh cs generalizing n with
  | case1 => simp at h
  | case2 => simp at h
  | case3 =>
    obtain rfl : 0 = n := by simpa using h
    simp
  | case4 => simp at h
  | case5 fresh c rest hc _ _ more =>
    rename_i ih
    obtain ⟨k, hk, rfl⟩ := Option.map_eq_some_iff.mp h
    rw [show k + more + 1 + 1 = k + 1 + more + 1 by omega]
    exact notMem_take_add (LinkSpan.notMem_take_step hc) (ih hk)

lemma notMem_take_buttonExtent (elseEnds : Bool) (cs : List Char) :
    '\n' ∉ cs.take (buttonExtent elseEnds cs).1 := by
  unfold buttonExtent
  split
  · next n h =>
    simp only
    rw [show ∀ m, m + n + 1 = n + 1 + m from fun m => by omega, List.take_add, List.mem_append]
    exact not_or.mpr ⟨notMem_take_comma h, notMem_take_extent elseEnds true _⟩
  · exact notMem_take_extent elseEnds true cs

end Payload

/-! ### Pieces -/

namespace Piece

/-- The payload that a piece stands for is the end of its lexeme, which stays on its line. -/
def Sits (piece : Piece) : Prop :=
  ∀ carrier text lexeme, piece.token = some (.payload carrier text, lexeme) →
    '\n' ∉ lexeme ∧ text.toList <:+ lexeme

variable {cs : List Char} {mode : Mode}

lemma sits_of_plain {token : Token} {width : Nat}
    (h : ∀ carrier text, token ≠ .payload carrier text) :
    (plain token width cs).Sits := by
  intro carrier text lexeme heq
  obtain ⟨rfl, -⟩ : token = .payload carrier text ∧ _ := by simpa [plain] using heq
  exact absurd rfl (h carrier text)

lemma sits_of_none {piece : Piece} (h : piece.token = none) : piece.Sits := by
  intro carrier text lexeme heq
  simp [h] at heq

lemma sits_of_payload {carrier : Carrier} {lead n : Nat} {payload lexeme : List Char}
    (hlead : '\n' ∉ cs.take lead) (hpayload : '\n' ∉ (cs.drop lead).take n)
    (htrimmed : IsTrimmedOf payload ((cs.drop lead).take n))
    (hlexeme : lexeme = cs.take lead ++ payload) (fault : Option Fault) :
    Sits ⟨lead + n, some (.payload carrier (String.ofList payload), lexeme), fault⟩ := by
  intro other text l h
  obtain ⟨⟨-, rfl⟩, rfl⟩ : (carrier = other ∧ String.ofList payload = text) ∧ lexeme = l := by
    simpa using h
  rw [String.toList_ofList, hlexeme, List.mem_append, not_or]
  exact ⟨⟨hlead, fun hmem => hpayload (htrimmed.isPrefix.subset hmem)⟩, List.suffix_append _ _⟩

lemma sits_ofCarrier (carrier : Carrier) {length : Nat} (hlength : '\n' ∉ cs.take length) :
    (ofCarrier mode carrier length cs).Sits := by
  have hgap : '\n' ∉
      cs.take (length + (((cs.drop length).take 1).filter Payload.isGap).length) := by
    rw [List.take_add, List.mem_append, not_or]
    refine ⟨hlength, fun hmem => ?_⟩
    rcases hdrop : cs.drop length with _ | ⟨c, rest⟩
    · simp [hdrop] at hmem
    · by_cases hc : Payload.isGap c = true
      · have : c = '\n' := by simpa [hdrop, hc, eq_comm] using hmem
        subst this
        simp [Payload.isGap] at hc
      · simp [hdrop, hc] at hmem
  unfold ofCarrier
  simp only
  split
  · exact sits_of_payload hgap (Payload.notMem_take_buttonExtent _ _)
      (Payload.isTrimmedOf_settle _ _) rfl none
  · exact sits_of_payload hgap (Payload.notMem_take_extent _ _ _) (Payload.isTrimmedOf_settle _ _)
      rfl none

lemma sits_ofWord (c : Char) (rest : List Char) : (ofWord mode (c :: rest)).Sits := by
  have hword : '\n' ∉ (c :: rest).take ((c :: rest).takeWhile isWordChar).length := by
    rw [← List.prefix_iff_eq_take.mp (List.takeWhile_prefix _)]
    exact notMem_takeWhile (by decide +kernel) _
  have hsigned {d : Char} (hd : d ≠ '\n')
      (hnext : ((c :: rest).drop ((c :: rest).takeWhile isWordChar).length).head? = some d) :
      '\n' ∉ (c :: rest).take (((c :: rest).takeWhile isWordChar).length + 1) := by
    obtain ⟨tail, htail⟩ := List.head?_eq_some_iff.mp hnext
    rw [List.take_add, htail, List.mem_append, not_or]
    exact ⟨hword, by simpa using hd.symm⟩
  refine ofWord_cases (motive := Sits) rfl ?name ?mark ?carrier ?signed ?line
  case name => exact sits_of_plain (by simp)
  case mark => exact fun m _ => sits_of_plain (by simp)
  case carrier => exact fun carrier => sits_ofCarrier carrier hword
  case signed => exact fun carrier sign hsign hnext => sits_ofCarrier carrier (hsigned hsign hnext)
  case line => exact fun _ _ => sits_of_none rfl

lemma sits_ofLabel (rest : List Char) : (ofLabel mode (':' :: rest)).Sits := by
  have hgap : '\n' ∉ (':' :: rest).take
      ((rest.takeWhile fun c => c = ' ' || c = '\t' || c = '\r').length + 1) := by
    rw [List.take_succ_cons, ← List.prefix_iff_eq_take.mp (List.takeWhile_prefix _)]
    simpa using notMem_takeWhile (by decide) rest
  exact sits_of_payload hgap (Payload.notMem_take_extent _ _ _)
    (Payload.isTrimmedOf_trimEnd_settle _ _) rfl none

theorem sits_read (mode : Mode) (c : Char) (rest : List Char) :
    (read mode c rest).Sits := by
  refine read_cases (motive := Sits)
    ?lineBreak ?line ?comment ?label ?string ?number ?word ?operator
  case lineBreak => exact fun _ => sits_of_plain (by simp)
  case line => exact fun _ _ => sits_of_none rfl
  case comment =>
    intro _ _
    unfold ofComment
    simp only
    split
    · exact sits_of_plain (by simp)
    · exact sits_of_none rfl
  case label =>
    rintro rfl
    exact sits_ofLabel rest
  case string =>
    intro _
    unfold ofString
    split
    · exact sits_of_plain (by simp)
    · exact sits_of_none rfl
  case number => exact fun _ => sits_of_plain (by simp)
  case word => exact fun _ => sits_ofWord c rest
  case operator =>
    intro _
    unfold ofOperator
    split
    · exact sits_of_plain (by simp)
    · exact sits_of_none rfl

/-- What can be wrong with a piece, and the characters that it then starts with. -/
theorem fault_of_read (mode : Mode) (c : Char) (rest : List Char) :
    ∀ fault ∈ (read mode c rest).fault,
      (fault = .unterminatedComment ∧ c = '/' ∧ rest.head? = some '*') ∨
        (fault = .unterminatedString ∧ c = '"') ∨ fault = .unexpectedCharacter c := by
  have hcarrier (carrier : Carrier) (length : Nat) (cs : List Char) :
      (ofCarrier mode carrier length cs).fault = none := by
    simp only [ofCarrier, payload]
  refine read_cases (motive := fun piece => ∀ fault ∈ piece.fault,
    (fault = .unterminatedComment ∧ c = '/' ∧ rest.head? = some '*') ∨
      (fault = .unterminatedString ∧ c = '"') ∨ fault = .unexpectedCharacter c)
    ?lineBreak ?line ?comment ?label ?string ?number ?word ?operator
  case lineBreak => simp [ofLineBreak, plain]
  case line => simp [skipped]
  case comment =>
    intro hc hstar
    unfold ofComment
    simp only
    split <;> simp only <;> split <;> simp [hc, hstar]
  case label => simp [ofLabel]
  case string =>
    intro hc
    unfold ofString
    split <;> simp [plain, wrong, hc]
  case number => simp [ofNumber, plain]
  case word =>
    intro _
    refine ofWord_cases (motive := fun piece => ∀ fault ∈ piece.fault,
      (fault = .unterminatedComment ∧ c = '/' ∧ rest.head? = some '*') ∨
        (fault = .unterminatedString ∧ c = '"') ∨ fault = .unexpectedCharacter c) rfl
      ?name ?mark ?carrier ?signed ?line <;> simp [hcarrier, plain, skipped]
  case operator =>
    intro _
    unfold ofOperator
    split <;> simp [plain, wrong]

lemma exists_mem_table {word : List Char} {key : Keyword} (h : Keyword.ofWord? word = some key) :
    ∃ spelling, (spelling, key) ∈ Keyword.table := by
  obtain ⟨before, behind, htable, -⟩ := List.lookup_eq_some_iff.mp h
  exact ⟨_, htable ▸ List.mem_append_right before List.mem_cons_self⟩

lemma not_end_of_ofWord? {word : List Char} {m : Mark}
    (h : Keyword.ofWord? word = some (.mark m)) : m ≠ .lineBreak ∧ m ≠ .sourceEnd := by
  obtain ⟨spelling, hmem⟩ := exists_mem_table h
  have hall : ∀ entry ∈ Keyword.table,
      entry.2 ≠ .mark .lineBreak ∧ entry.2 ≠ .mark .sourceEnd := by decide
  constructor <;> rintro rfl
  · exact (hall _ hmem).1 rfl
  · exact (hall _ hmem).2 rfl

lemma not_end_of_operator? {c : Char} {next : Option Char} {m : Mark} {width : Nat}
    (h : operator? c next = some (m, width)) : m ≠ .lineBreak ∧ m ≠ .sourceEnd := by
  unfold operator? at h
  constructor <;> rintro rfl <;> split at h <;> (try split at h) <;> (try split at h) <;> simp_all

/-- No piece is the end of the source, and one that is a line break has a line feed in it. -/
theorem end_of_read (mode : Mode) (c : Char) (rest : List Char) :
    ∀ entry ∈ (read mode c rest).token, entry.1 ≠ .mark .sourceEnd ∧
      (entry.1 = .mark .lineBreak → '\n' ∈ (c :: rest).take (read mode c rest).width) := by
  refine read_cases (motive := fun piece => ∀ entry ∈ piece.token,
    entry.1 ≠ .mark .sourceEnd ∧
      (entry.1 = .mark .lineBreak → '\n' ∈ (c :: rest).take piece.width))
    ?lineBreak ?line ?comment ?label ?string ?number ?word ?operator
  case lineBreak =>
    rintro rfl
    simp [ofLineBreak, plain]
  case line => simp [skipped]
  case comment =>
    intro _ _
    unfold ofComment
    simp only
    split
    · next hmem => simpa [plain] using List.contains_iff_mem.mp hmem
    · simp [skipped]
  case label => simp [ofLabel]
  case string =>
    intro _
    unfold ofString
    split <;> simp [plain, wrong]
  case number => simp [ofNumber, plain]
  case word =>
    intro _
    refine ofWord_cases (motive := fun piece => ∀ entry ∈ piece.token,
      entry.1 ≠ .mark .sourceEnd ∧
        (entry.1 = .mark .lineBreak → '\n' ∈ (c :: rest).take piece.width)) rfl
      ?name ?mark ?carrier ?signed ?line
    case mark =>
      intro m hm
      obtain ⟨hbreak, hend⟩ := not_end_of_ofWord? hm
      simp [plain, hbreak, hend]
    all_goals simp [plain, skipped, ofCarrier, payload]
  case operator =>
    intro _
    unfold ofOperator
    split
    · next hop =>
      obtain ⟨hbreak, hend⟩ := not_end_of_operator? hop
      simp [plain, hbreak, hend]
    · simp [wrong]

lemma eq_ampersand_of_read {text : List Char} :
    (read mode c rest).token = some (.mark .ampersand, text) → c = '&' := by
  refine read_cases (motive := fun piece => piece.token = some (.mark .ampersand, text) → c = '&')
    ?lineBreak ?line ?comment ?label ?string ?number ?word ?operator
  case lineBreak => simp [ofLineBreak, plain]
  case line => simp [skipped]
  case comment =>
    intro _ _
    unfold ofComment
    simp only
    split <;> simp [plain, skipped]
  case label => simp [ofLabel]
  case string =>
    intro _
    unfold ofString
    split <;> simp [plain, wrong]
  case number => simp [ofNumber, plain]
  case word =>
    intro _
    refine ofWord_cases (motive := fun piece => piece.token = some (.mark .ampersand, text) →
      c = '&') rfl ?name ?mark ?carrier ?signed ?line
    case mark =>
      intro m hm
      obtain ⟨spelling, hmem⟩ := exists_mem_table hm
      have hall : ∀ entry ∈ Keyword.table, entry.2 ≠ .mark .ampersand := by decide
      have hne : m ≠ .ampersand := by
        rintro rfl
        exact hall _ hmem rfl
      simp [plain, hne]
    all_goals simp [plain, skipped, ofCarrier, payload]
  case operator =>
    intro _
    unfold ofOperator
    split
    · next hop =>
      intro htoken
      obtain rfl := Token.mark.inj (congrArg Prod.fst (Option.some.inj htoken))
      unfold operator? at hop
      split at hop <;> (try split at hop) <;> (try split at hop) <;> simp_all
    · simp [wrong]

end Piece

/-! ### Lexemes -/

namespace Lexeme

/-- Where a payload ends. Of other lexemes it only matters where they start. -/
def stop (l : Lexeme) : Position :=
  match l.token with
  | .payload _ _ => l.start.right l.text.length
  | _ => l.start

/-- A payload is the end of its lexeme and stays on its line. -/
def Sits (l : Lexeme) : Prop :=
  ∀ carrier text, l.token = .payload carrier text →
    '\n' ∉ text.toList ∧ l.payloadStart.right text.length = l.stop

/-- The lexemes follow one another between the two places. -/
def Laid (lo hi : Position) : List Lexeme → Prop
  | [] => lo ≤ hi
  | l :: rest => lo ≤ l.start ∧ l.Sits ∧ Laid l.stop hi rest

variable {lo hi : Position} {ts us : List Lexeme}

lemma start_le_stop (l : Lexeme) : l.start ≤ l.stop := by
  unfold stop
  split
  · exact Position.le_right _ _
  · exact le_refl _

lemma Laid.le (h : Laid lo hi ts) : lo ≤ hi := by
  induction ts generalizing lo with
  | nil => exact h
  | cons l rest ih => exact le_trans h.1 (le_trans l.start_le_stop (ih h.2.2))

lemma Laid.lower {p : Position} (h : Laid lo hi ts) (hp : p ≤ lo) : Laid p hi ts := by
  cases ts with
  | nil => exact le_trans hp h
  | cons l rest => exact ⟨le_trans hp h.1, h.2⟩

lemma Laid.left (h : Laid lo hi (ts ++ us)) : Laid lo hi ts := by
  induction ts generalizing lo with
  | nil => exact Laid.le h
  | cons l rest ih => exact ⟨h.1, h.2.1, ih h.2.2⟩

/-- The place that reading so many lexemes of the list gets to. -/
def reach (lo : Position) : List Lexeme → Nat → Position
  | l :: rest, n + 1 => reach l.stop rest n
  | _, _ => lo

@[simp] lemma reach_zero (lo : Position) (ts : List Lexeme) : reach lo ts 0 = lo := by
  cases ts <;> rfl

lemma reach_add (lo : Position) (ts : List Lexeme) (m n : Nat) :
    reach lo ts (m + n) = reach (reach lo ts m) (ts.drop m) n := by
  induction m generalizing lo ts with
  | zero => simp
  | succ m ih =>
    cases ts with
    | nil => simp [reach]
    | cons l rest =>
      rw [show m + 1 + n = m + n + 1 by omega]
      exact ih l.stop rest

lemma Laid.drop (h : Laid lo hi ts) (n : Nat) : Laid (reach lo ts n) hi (ts.drop n) := by
  induction n generalizing lo ts with
  | zero => simpa using h
  | succ n ih =>
    cases ts with
    | nil => exact h
    | cons l rest => exact ih h.2.2

lemma Laid.le_reach (h : Laid lo hi ts) (n : Nat) : lo ≤ reach lo ts n := by
  induction n generalizing lo ts with
  | zero => simp
  | succ n ih =>
    cases ts with
    | nil => exact le_refl lo
    | cons l rest => exact le_trans h.1 (le_trans l.start_le_stop (ih h.2.2))

lemma Laid.reach_le (h : Laid lo hi ts) (n : Nat) : reach lo ts n ≤ hi := (h.drop n).le

end Lexeme

/-! ### Scans -/

namespace Scan

open Lexeme (Laid)

lemma sits_of_piece {piece : Piece} {cs lexeme : List Char} {token : Token} (place : Position)
    (hpiece : piece.Sits) (htoken : piece.token = some (token, lexeme))
    (htrimmed : IsTrimmedOf lexeme (cs.take piece.width)) :
    (⟨token, String.ofList lexeme, place⟩ : Lexeme).Sits ∧
      (⟨token, String.ofList lexeme, place⟩ : Lexeme).stop ≤
        place.advance (cs.take piece.width) := by
  cases token with
  | payload carrier text =>
    obtain ⟨hline, hsuffix⟩ := hpiece carrier text lexeme htoken
    have hstart := htrimmed.isPrefix
    have htext : text.length ≤ lexeme.length := by
      rw [← String.length_toList]
      exact hsuffix.length_le
    constructor
    · -- the text is the end of the lexeme, so it starts where its length says
      intro other t h
      obtain ⟨-, rfl⟩ : carrier = other ∧ text = t := by simpa using h
      refine ⟨fun hmem => hline (hsuffix.subset hmem), ?_⟩
      simp only [Lexeme.payloadStart, Lexeme.stop, Token.text?, Option.elim, String.length_ofList,
        Position.right_right]
      congr 1
      omega
    · simp only [Lexeme.stop, String.length_ofList]
      refine Position.right_le_advance place ?_ hstart.length_le
      rwa [← List.prefix_iff_eq_take.mp hstart]
  | _ =>
    exact ⟨fun carrier text h => by simp at h, Position.le_advance _ _⟩

/-- **Lexemes are laid out in reading order.** They follow one another from the start of the text to
its end, and payloads stay on their lines. -/
theorem laid_read (mode : Mode) (place : Position) (cs : List Char) :
    Laid place (place.advance cs) (read mode place cs).lexemes := by
  refine read_induction (motive := fun mode place cs =>
    Laid place (place.advance cs) (read mode place cs).lexemes) ?_ ?_ ?_ mode place cs
  · -- the end of the text
    intro mode place
    rw [read_nil]
    exact ⟨le_refl _, fun carrier text h => by simp at h, le_refl _⟩
  · -- a blank
    intro mode place c rest hc ih
    rw [read_padding mode place hc]
    exact ih.lower (place.le_next c)
  · -- a piece
    intro mode place c rest hc ih
    rw [← Position.advance_append, List.take_append_drop] at ih
    rw [read_piece mode place hc]
    unfold kept
    split
    · next token lexeme htoken =>
      split
      · obtain ⟨hsits, hstop⟩ := sits_of_piece place (Piece.sits_read mode c rest) htoken
          (Piece.isTrimmedOf_read mode c rest _ htoken)
        exact ⟨le_refl _, hsits, ih.lower hstop⟩
      · exact ih.lower (place.le_advance _)
    · exact ih.lower (place.le_advance _)

lemma lexical_of_mem_reports {mode : Mode} {place : Position} {cs : List Char} {r : Report}
    (h : r ∈ (read mode place cs).reports) : r.fault.kind = .lexical := by
  revert h
  refine read_induction (motive := fun mode place cs =>
    r ∈ (read mode place cs).reports → r.fault.kind = .lexical) ?_ ?_ ?_ mode place cs
  · intro mode place h
    simp [read_nil] at h
  · intro mode place c rest hc ih h
    rw [read_padding mode place hc] at h
    exact ih h
  · intro mode place c rest hc ih h
    rw [read_piece mode place hc] at h
    rcases List.mem_append.mp h with h | h
    · obtain ⟨fault, hfault, rfl⟩ := exists_of_mem_made h
      rcases Piece.fault_of_read mode c rest fault hfault with ⟨rfl, -⟩ | ⟨rfl, -⟩ | rfl <;> rfl
    · exact ih h

/-- A lexeme is the end of the text, or it is read from a piece and placed where that starts. -/
theorem eq_end_or_exists_piece {mode : Mode} {place : Position} {cs : List Char} {l : Lexeme}
    (h : l ∈ (read mode place cs).lexemes) :
    l = ⟨.mark .sourceEnd, "", place.advance cs⟩ ∨
      ∃ (inner : Mode) (front : List Char) (c : Char) (rest text : List Char),
        cs = front ++ c :: rest ∧ l.start = place.advance front ∧
        (Piece.read inner c rest).token = some (l.token, text) ∧ l.text = String.ofList text := by
  revert h
  refine read_induction (motive := fun mode place cs => l ∈ (read mode place cs).lexemes →
    l = ⟨.mark .sourceEnd, "", place.advance cs⟩ ∨
      ∃ (inner : Mode) (front : List Char) (c : Char) (rest text : List Char),
        cs = front ++ c :: rest ∧ l.start = place.advance front ∧
        (Piece.read inner c rest).token = some (l.token, text) ∧ l.text = String.ofList text)
    ?_ ?_ ?_ mode place cs
  · -- the end of the text
    intro mode place h
    rw [read_nil] at h
    exact .inl (List.mem_singleton.mp h)
  · -- a blank
    intro mode place c rest hc ih h
    rw [read_padding mode place hc] at h
    refine (ih h).imp id ?_
    rintro ⟨inner, front, d, more, text, rfl, hplace, hpiece⟩
    exact ⟨inner, c :: front, d, more, text, rfl, hplace, hpiece⟩
  · -- a piece
    intro mode place c rest hc ih h
    rw [read_piece mode place hc] at h
    rcases List.mem_append.mp h with h | h
    · obtain ⟨text, htoken, heq⟩ := exists_of_mem_kept h
      exact .inr ⟨mode, [], c, rest, text, rfl, by rw [heq]; rfl, htoken, by rw [heq]⟩
    · rcases ih h with hend | ⟨inner, front, d, more, text, hback, hplace, hpiece⟩
      · rw [← Position.advance_append, List.take_append_drop] at hend
        exact .inl hend
      · refine .inr ⟨inner, (c :: rest).take (Piece.read mode c rest).width ++ front, d, more, text,
          ?_, ?_, hpiece⟩
        · rw [List.append_assoc, ← hback, List.take_append_drop]
        · rw [hplace, Position.advance_append]

lemma exists_piece_of_mem {mode : Mode} {place : Position} {cs : List Char} {l : Lexeme}
    (h : l ∈ (read mode place cs).lexemes) (hl : l.token ≠ .mark .sourceEnd) :
    ∃ (inner : Mode) (c : Char) (rest text : List Char), (c :: rest) <:+ cs ∧
      (Piece.read inner c rest).token = some (l.token, text) ∧ l.text = String.ofList text := by
  rcases eq_end_or_exists_piece h with rfl | ⟨inner, front, c, rest, text, rfl, -, hpiece⟩
  · exact absurd rfl hl
  · exact ⟨inner, c, rest, text, List.suffix_append front _, hpiece⟩

lemma ne_lineBreak_of_mem {mode : Mode} {place : Position} {cs : List Char} {l : Lexeme}
    (hline : '\n' ∉ cs) (h : l ∈ (read mode place cs).lexemes) : l.token ≠ .mark .lineBreak := by
  intro hbreak
  obtain ⟨inner, c, rest, text, hsuffix, htoken, -⟩ := exists_piece_of_mem h (by simp [hbreak])
  have hmem := (Piece.end_of_read inner c rest _ htoken).2 hbreak
  exact hline (hsuffix.subset (List.mem_of_mem_take hmem))

lemma ne_ampersand_of_mem {mode : Mode} {place : Position} {cs : List Char} {l : Lexeme}
    (hampersand : '&' ∉ cs) (h : l ∈ (read mode place cs).lexemes) :
    l.token ≠ .mark .ampersand := by
  intro hl
  obtain ⟨inner, c, rest, text, hsuffix, htoken, -⟩ := exists_piece_of_mem h (by simp [hl])
  rw [hl] at htoken
  obtain rfl := Piece.eq_ampersand_of_read htoken
  exact hampersand (hsuffix.subset List.mem_cons_self)

/-- The tokens of a text are followed by its end, which is none of them. -/
theorem exists_lexemes_eq (mode : Mode) (place : Position) (cs : List Char) :
    ∃ ts, (read mode place cs).lexemes = ts ++ [⟨.mark .sourceEnd, "", place.advance cs⟩] ∧
      ∀ l ∈ ts, l.token ≠ .mark .sourceEnd := by
  refine read_induction (motive := fun mode place cs =>
    ∃ ts, (read mode place cs).lexemes = ts ++ [⟨.mark .sourceEnd, "", place.advance cs⟩] ∧
      ∀ l ∈ ts, l.token ≠ .mark .sourceEnd) ?_ ?_ ?_ mode place cs
  · intro mode place
    rw [read_nil]
    exact ⟨[], rfl, by simp⟩
  · intro mode place c rest hc ih
    rwa [read_padding mode place hc]
  · intro mode place c rest hc ih
    obtain ⟨ts, hts, hfree⟩ := ih
    rw [← Position.advance_append, List.take_append_drop] at hts
    rw [read_piece mode place hc]
    refine ⟨kept mode place (Piece.read mode c rest) ++ ts, by rw [hts, List.append_assoc], ?_⟩
    refine List.forall_mem_append.mpr ⟨fun l hl => ?_, hfree⟩
    obtain ⟨lexeme, htoken, -⟩ := exists_of_mem_kept hl
    exact (Piece.end_of_read mode c rest _ htoken).1

lemma exists_sourceEnd (mode : Mode) (place : Position) (cs : List Char) :
    ∃ l ∈ (read mode place cs).lexemes, l.token = .mark .sourceEnd := by
  obtain ⟨ts, hts, -⟩ := exists_lexemes_eq mode place cs
  exact ⟨_, hts ▸ List.mem_append_right ts (List.mem_singleton_self _), rfl⟩

end Scan

end QuestScript
