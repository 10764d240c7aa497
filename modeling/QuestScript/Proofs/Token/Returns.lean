import QuestScript.Proofs.Action.Parallel
import QuestScript.Proofs.Token.Locality

/-!
Line ends with carriage returns.

A source is read in step with the source that has a carriage return in front of every line feed. The
tokens are the same, and so are their places, but that a line break stands one column further to
the right, behind the return. Only string literals that span lines would hold other characters.
-/

namespace QuestScript

open Text

/-! ### Returns in texts -/

namespace Text

/-- The text with a carriage return in front of every line feed. -/
def withReturns (cs : List Char) : List Char :=
  cs.flatMap fun c => if c = '\n' then ['\r', '\n'] else [c]

variable {cs front back : List Char} {c : Char}

@[simp] lemma withReturns_nil : withReturns [] = [] := rfl

@[simp] lemma withReturns_lineFeed (cs : List Char) :
    withReturns ('\n' :: cs) = '\r' :: '\n' :: withReturns cs := rfl

lemma withReturns_cons (h : c ≠ '\n') (cs : List Char) :
    withReturns (c :: cs) = c :: withReturns cs := by
  simp [withReturns, h]

@[simp] lemma withReturns_append (front back : List Char) :
    withReturns (front ++ back) = withReturns front ++ withReturns back := by
  simp [withReturns]

lemma withReturns_of_notMem (h : '\n' ∉ cs) : withReturns cs = cs := by
  induction cs with
  | nil => rfl
  | cons c cs ih =>
    rw [List.mem_cons, not_or] at h
    rw [withReturns_cons (Ne.symm h.1), ih h.2]

lemma take_withReturns (n : Nat) (cs : List Char) :
    (withReturns cs).take (withReturns (cs.take n)).length = withReturns (cs.take n) := by
  have hsplit := withReturns_append (cs.take n) (cs.drop n)
  rw [List.take_append_drop] at hsplit
  rw [hsplit, List.take_left]

lemma drop_withReturns (n : Nat) (cs : List Char) :
    (withReturns cs).drop (withReturns (cs.take n)).length = withReturns (cs.drop n) := by
  have hsplit := withReturns_append (cs.take n) (cs.drop n)
  rw [List.take_append_drop] at hsplit
  rw [hsplit, List.drop_left]

lemma mem_withReturns (h : c ≠ '\r') : c ∈ withReturns cs ↔ c ∈ cs := by
  induction cs with
  | nil => rfl
  | cons d cs ih =>
    by_cases hd : d = '\n'
    · subst hd
      simp [ih, h]
    · rw [withReturns_cons hd, List.mem_cons, List.mem_cons, ih]

lemma advance_withReturns (p : Position) (cs : List Char) :
    p.advance (withReturns cs) = p.advance cs := by
  induction cs generalizing p with
  | nil => rfl
  | cons c cs ih =>
    by_cases hc : c = '\n'
    · subst hc
      exact ih _
    · rw [withReturns_cons hc]
      exact ih _

end Text

/-! ### Places -/

namespace Position

/-- The text stands at the place in the source. -/
def Stands (source : List Char) (p : Position) (text : List Char) : Prop :=
  ∃ front back, source = front ++ text ++ back ∧ p = start.advance front

/-- The place where a return is put in front of a line feed, and where the line feed is then. All
other places stay where they are. -/
def Moved (source : List Char) (p p' : Position) : Prop :=
  (p' = p ∧ p.Stands source []) ∨ (p' = p.right 1 ∧ p.Stands source ['\n'])

variable {source front text back : List Char} {p p' : Position}

lemma Stands.part (h : p.Stands source (front ++ text ++ back)) (hline : '\n' ∉ front) :
    (p.right front.length).Stands source text := by
  obtain ⟨lead, tail, rfl, rfl⟩ := h
  exact ⟨lead ++ front, back ++ tail, by simp, by rw [advance_append, advance_of_notMem hline]⟩

lemma Stands.advance (h : p.Stands source (front ++ text ++ back)) :
    (p.advance front).Stands source text := by
  obtain ⟨lead, tail, rfl, rfl⟩ := h
  exact ⟨lead ++ front, back ++ tail, by simp, by rw [advance_append]⟩

lemma Stands.start (h : p.Stands source text) : p.Stands source [] := by
  have hpart : p.Stands source ([] ++ [] ++ text) := h
  exact hpart.advance

lemma Moved.line (h : p.Moved source p') : p'.line = p.line := by
  rcases h with ⟨rfl, -⟩ | ⟨rfl, -⟩ <;> rfl

end Position

/-! ### Sources with and without returns -/

namespace Parallel

open Position (Moved Stands)

variable {source cs : List Char} {mode : Mode} {place p p' : Position} {l : Lexeme}

/-- The reading of a source, in parallel with the source that has returns. -/
def returning (source : List Char) : Parallel where
  report r r' := r'.fault = r.fault ∧ r.place.Moved source r'.place
  line := id
  text p p' cs := '\n' ∉ cs ∧ ((p' = p ∧ p.Stands source cs) ∨ (cs = [] ∧ p.Moved source p'))

lemma moved_of_text (h : (returning source).text p p' cs) : p.Moved source p' := by
  rcases h with ⟨-, ⟨rfl, h⟩ | ⟨-, h⟩⟩
  · exact .inl ⟨rfl, h.start⟩
  · exact h

lemma lexemes_of_stands (h : place.Stands source cs) (hl : l ∈ (Scan.read mode place cs).lexemes) :
    (returning source).Lexemes l l := by
  refine ⟨rfl, ⟨by simp, .inl ⟨rfl, ?_⟩⟩, fun htoken => ?_⟩
  · obtain ⟨front, back, rfl, hstart, -⟩ := Scan.exists_of_mem_lexemes hl
    have hpart : place.Stands source (front ++ [] ++ back) := by simpa using h
    exact hstart ▸ hpart.advance
  · obtain ⟨front, back, rfl, hstart, hline, -⟩ := Scan.exists_of_payload hl htoken
    exact ⟨hline, .inl ⟨rfl, hstart ▸ h.advance⟩⟩

lemma report_of_stands (h : place.Stands source cs) {r : Report}
    (hr : r ∈ (Scan.read mode place cs).reports) : (returning source).report r r := by
  obtain ⟨front, back, rfl, hplace, -⟩ := Scan.exists_of_mem_reports hr
  have hpart : place.Stands source (front ++ [] ++ back) := by simpa using h
  exact ⟨rfl, .inl ⟨rfl, hplace ▸ hpart.advance⟩⟩

lemma lawful_returning (source : List Char) : (returning source).Lawful where
  part h := by
    obtain ⟨hline, h⟩ := h
    simp only [List.mem_append, not_or] at hline
    refine ⟨hline.1.2, ?_⟩
    rcases h with ⟨rfl, h⟩ | ⟨hnil, h⟩
    · exact .inl ⟨rfl, h.part hline.1.1⟩
    · simp only [List.append_eq_nil_iff] at hnil
      obtain ⟨⟨rfl, rfl⟩, -⟩ := hnil
      exact .inr ⟨rfl, h⟩
  line h := (moved_of_text h).line
  fault h _ _ := ⟨rfl, moved_of_text h⟩
  code _ h := ⟨rfl, moved_of_text h⟩
  reports h := by
    rcases h with ⟨-, ⟨rfl, h⟩ | ⟨rfl, -⟩⟩
    · exact List.forall₂_same.mpr fun _ hr => report_of_stands h hr
    · simp [Scan.read_nil]
  lexemes h := by
    rcases h with ⟨-, ⟨rfl, h⟩ | ⟨rfl, h⟩⟩
    · exact List.forall₂_same.mpr fun _ hl => lexemes_of_stands h hl
    · rw [Scan.read_nil, Scan.read_nil]
      exact .cons ⟨rfl, ⟨by simp, .inr ⟨rfl, h⟩⟩, by simp⟩ .nil

lemma limits_returning (source : List Char) (options : Options) :
    (returning source).Limits options options where
  lawful := lawful_returning source
  policy := rfl
  report h := ⟨rfl, moved_of_text h⟩

end Parallel

/-- A lexeme without and with returns in the source. Only line breaks are moved, and what stands in
a label without a name. -/
structure Lexeme.Returned (source : List Char) (l l' : Lexeme) : Prop extends
    (Parallel.returning source).Lexemes l l' where
  stays (h : l.token ≠ .mark .lineBreak) : l'.start = l.start
  payloadStays {carrier : Carrier} {text : String} (h : l.token = .payload carrier text)
    (hcarrier : carrier ≠ .label) : l'.payloadStart = l.payloadStart

namespace Lexeme

variable {source cs : List Char} {mode : Mode} {place : Position} {l : Lexeme}

lemma returned_of_stands (h : place.Stands source cs) (hl : l ∈ (Scan.read mode place cs).lexemes) :
    l.Returned source l :=
  ⟨Parallel.lexemes_of_stands h hl, fun _ => rfl, fun _ _ => rfl⟩

lemma returned_lineBreak {text text' : String} {place' : Position}
    (h : place.Moved source place') :
    Returned source ⟨.mark .lineBreak, text, place⟩ ⟨.mark .lineBreak, text', place'⟩ :=
  ⟨⟨rfl, ⟨by simp, .inr ⟨rfl, h⟩⟩, by simp⟩, fun h => absurd rfl h, by simp⟩

end Lexeme

/-! ### Pieces -/

namespace Piece

variable {cs rest : List Char} {c : Char}

lemma commentEnd?_cons (h : ¬(c = '*' ∧ rest.head? = some '/')) :
    commentEnd? (c :: rest) = (commentEnd? rest).map (· + 1) := by
  cases rest with
  | nil => rfl
  | cons d rest => rw [commentEnd?, if_neg (by simpa using h)]

lemma commentEnd?_withReturns (cs : List Char) :
    commentEnd? (withReturns cs) =
      (commentEnd? cs).map fun n => (withReturns (cs.take n)).length := by
  induction cs with
  | nil => rfl
  | cons c rest ih =>
    by_cases hends : c = '*' ∧ rest.head? = some '/'
    · obtain ⟨rfl, hslash⟩ := hends
      obtain ⟨tail, rfl⟩ := List.head?_eq_some_iff.mp hslash
      simp [withReturns_cons, commentEnd?]
    · rw [commentEnd?_cons hends]
      by_cases hc : c = '\n'
      · subst hc
        rw [withReturns_lineFeed, commentEnd?_cons (by simp), commentEnd?_cons (by simp), ih]
        cases commentEnd? rest <;> simp
      · have hends' : ¬(c = '*' ∧ (withReturns rest).head? = some '/') := by
          rintro ⟨rfl, hslash⟩
          refine hends ⟨rfl, ?_⟩
          cases rest with
          | nil => simp at hslash
          | cons d rest =>
            by_cases hd : d = '\n'
            · simp [hd] at hslash
            · simpa [withReturns_cons hd] using hslash
        rw [withReturns_cons hc, commentEnd?_cons hends', ih]
        cases commentEnd? rest <;> simp [withReturns_cons hc]

/-- The tokens of both pieces are the same line break, or there are none. -/
def SameBreak (piece piece' : Piece) : Prop :=
  (piece.token = none ∧ piece'.token = none) ∨ ∃ text text',
    piece.token = some (.mark .lineBreak, text) ∧ piece'.token = some (.mark .lineBreak, text')

lemma ofComment_eq (cs : List Char) :
    ofComment cs = ⟨(commentEnd? (cs.drop 2)).elim cs.length (· + 2),
      if '\n' ∈ cs.take ((commentEnd? (cs.drop 2)).elim cs.length (· + 2)) then
        some (.mark .lineBreak,
          trimEnd (cs.take ((commentEnd? (cs.drop 2)).elim cs.length (· + 2))))
      else none,
      if (commentEnd? (cs.drop 2)).isSome then none else some .unterminatedComment⟩ := by
  unfold ofComment
  simp only [List.contains_iff_mem]
  split
  · rfl
  · rfl

lemma ofComment_withReturns (rest : List Char) :
    (ofComment ('/' :: '*' :: withReturns rest)).width =
        (withReturns (('/' :: '*' :: rest).take (ofComment ('/' :: '*' :: rest)).width)).length ∧
      (ofComment ('/' :: '*' :: withReturns rest)).fault =
        (ofComment ('/' :: '*' :: rest)).fault ∧
      SameBreak (ofComment ('/' :: '*' :: rest)) (ofComment ('/' :: '*' :: withReturns rest)) := by
  have hcs (cs : List Char) : withReturns ('/' :: '*' :: cs) = '/' :: '*' :: withReturns cs := by
    rw [withReturns_cons (by decide), withReturns_cons (by decide)]
  have hwidth : (commentEnd? (withReturns rest)).elim ('/' :: '*' :: withReturns rest).length
      (· + 2) = (withReturns (('/' :: '*' :: rest).take
        ((commentEnd? rest).elim ('/' :: '*' :: rest).length (· + 2)))).length := by
    rw [commentEnd?_withReturns]
    cases commentEnd? rest with
    | none => simp [hcs]
    | some n => simp [hcs]
  rw [ofComment_eq, ofComment_eq]
  simp only [List.drop_succ_cons, List.drop_zero]
  refine ⟨hwidth, ?_, ?_⟩
  · rw [commentEnd?_withReturns, Option.isSome_map]
  · rw [hwidth, ← hcs, take_withReturns]
    unfold SameBreak
    simp only [mem_withReturns (c := '\n') (by decide)]
    split
    · exact .inr ⟨_, _, rfl, rfl⟩
    · exact .inl ⟨rfl, rfl⟩

lemma ofString_withReturns (hclosed : '"' ∈ rest) (hvalue : '\n' ∉ rest.takeWhile (· != '"')) :
    ofString (c :: withReturns rest) = ofString (c :: rest) := by
  obtain ⟨tail, htail⟩ := eq_takeWhile_append hclosed
  have hclosed' : '"' ∈ withReturns rest := (mem_withReturns (by decide)).mpr hclosed
  generalize hinside : rest.takeWhile (· != '"') = value at hvalue htail
  have hquote : '"' ∉ value := hinside ▸ notMem_takeWhile (by simp) rest
  have hwhole : withReturns rest = value ++ '"' :: withReturns tail := by
    rw [htail, withReturns_append, withReturns_of_notMem hvalue, withReturns_cons (by decide)]
  have hinside' : (withReturns rest).takeWhile (· != '"') = value := by
    rw [hwhole, takeWhile_append_of_notMem hquote]
  have hsame (behind : List Char) : (c :: (value ++ '"' :: behind)).take (value.length + 2) =
      c :: (value ++ ['"']) := by
    rw [List.take_succ_cons, List.take_append, List.take_of_length_le (Nat.le_succ _),
      Nat.add_sub_cancel_left]
    rfl
  unfold ofString
  simp only [List.tail_cons, List.contains_eq_mem, hclosed, hclosed', hinside, hinside',
    decide_true, if_true, plain]
  rw [hwhole, htail, hsame, hsame]

lemma isTerminated_read (mode : Mode) (hquote : c ≠ '"')
    (hcomment : ¬(c = '/' ∧ rest.head? = some '*')) : (read mode c rest).IsTerminated := by
  refine ⟨fun h => hquote ?_, fun h => hcomment ?_⟩
  · simpa using fault_of_read mode c rest _ h
  · simpa using fault_of_read mode c rest _ h

/-- The pieces at the start of a line in front of a line feed, without and with a return there. -/
lemma grows_withReturns {line : List Char} (behind : List Char) (mode : Mode)
    (hcs : '\n' ∉ c :: line) (hreturn : '\r' ∉ c :: line) (hquote : c ≠ '"')
    (hcomment : ¬(c = '/' ∧ line.head? = some '*')) :
    Grows '\r' True (c :: line).length (read mode c (line ++ '\n' :: behind))
      (read mode c (withReturns (line ++ '\n' :: behind))) := by
  have hc : c ≠ '\n' := fun heq => hcs (by simp [heq])
  have hline : '\n' ∉ line := fun hmem => hcs (List.mem_cons_of_mem c hmem)
  have hcomment' : ¬(c = '/' ∧ (line ++ ['\r']).head? = some '*') := by
    rcases line with _ | ⟨d, line⟩
    · simp
    · exact hcomment
  have hwhole : withReturns (line ++ '\n' :: behind) =
      (line ++ ['\r']) ++ '\n' :: withReturns behind := by
    rw [withReturns_append, withReturns_of_notMem hline, withReturns_lineFeed, List.append_assoc]
    rfl
  rw [hwhole, read_lineFeed _ mode hc (isTerminated_read mode hquote hcomment),
    read_lineFeed _ mode hc (isTerminated_read mode hquote hcomment')]
  have hends : Ends '\r' [] := ends_of_isBlank (by decide)
  have hgrows := grows_read hends mode hc (fun _ => hcs) fun heq => absurd heq (by decide)
  rwa [show IsReturn '\r' (c :: line) = True from eq_true ⟨rfl, hreturn⟩] at hgrows

end Piece

namespace Scan

open Parallel (returning)

variable {source cs rest : List Char} {mode : Mode} {place : Position} {c : Char}

/-- The tokens of both scans answer to one another, and their reports are the same. -/
structure Agrees (source : List Char) (scan scan' : Scan) : Prop where
  lexemes : List.Forall₂ (Lexeme.Returned source) scan.lexemes scan'.lexemes
  reports : scan'.reports = scan.reports

/-- The string literals among the tokens stay on one line. -/
def KeepsLines (scan : Scan) : Prop :=
  ∀ l ∈ scan.lexemes, ∀ value, l.token = .string value → '\n' ∉ value.toList

lemma agrees_piece {piece piece' : Piece} (hc : ¬IsPadding c) (hline : c ≠ '\n')
    (hread : Piece.read mode c rest = piece)
    (hread' : Piece.read mode c (withReturns rest) = piece')
    (hkept : List.Forall₂ (Lexeme.Returned source) (kept mode place piece)
      (kept mode place piece'))
    (hfault : piece'.fault = piece.fault) (hmode : modeBehind mode piece' = modeBehind mode piece)
    (h : Agrees source
      (read (modeBehind mode piece) (place.advance ((c :: rest).take piece.width))
        ((c :: rest).drop piece.width))
      (read (modeBehind mode piece)
        (place.advance ((withReturns (c :: rest)).take piece'.width))
        ((withReturns (c :: rest)).drop piece'.width))) :
    Agrees source (read mode place (c :: rest)) (read mode place (withReturns (c :: rest))) := by
  rw [withReturns_cons hline] at h ⊢
  rw [read_piece mode place hc, read_piece mode place hc, hread, hread', hmode]
  refine ⟨List.rel_append hkept h.lexemes, ?_⟩
  simp only
  rw [h.reports, made, made, hfault]

/-- What stands behind the piece at the start of the text is read alike with returns. -/
def AgreesBehind (source : List Char) (mode : Mode) (place : Position) (c : Char)
    (rest : List Char) : Prop :=
  Agrees source
    (read (modeBehind mode (Piece.read mode c rest))
      (place.advance ((c :: rest).take (Piece.read mode c rest).width))
      ((c :: rest).drop (Piece.read mode c rest).width))
    (read (modeBehind mode (Piece.read mode c rest))
      (place.advance ((c :: rest).take (Piece.read mode c rest).width))
      (withReturns ((c :: rest).drop (Piece.read mode c rest).width)))

lemma kept_of_stands (hc : ¬IsPadding c) (h : place.Stands source (c :: rest)) :
    List.Forall₂ (Lexeme.Returned source) (kept mode place (Piece.read mode c rest))
      (kept mode place (Piece.read mode c rest)) := by
  refine List.forall₂_same.mpr fun l hl => ?_
  have hmem : l ∈ (read mode place (c :: rest)).lexemes := by
    rw [read_piece mode place hc]
    exact List.mem_append_left _ hl
  exact Lexeme.returned_of_stands h hmem

lemma agrees_same (hc : ¬IsPadding c) (hline : c ≠ '\n') (hstands : place.Stands source (c :: rest))
    (hread : Piece.read mode c (withReturns rest) = Piece.read mode c rest)
    (hfree : '\n' ∉ (c :: rest).take (Piece.read mode c rest).width)
    (h : AgreesBehind source mode place c rest) :
    Agrees source (read mode place (c :: rest)) (read mode place (withReturns (c :: rest))) := by
  refine agrees_piece hc hline rfl hread (kept_of_stands hc hstands) rfl rfl ?_
  have hle := (Piece.fits_read mode c rest).2
  have htake := take_withReturns (Piece.read mode c rest).width (c :: rest)
  have hdrop := drop_withReturns (Piece.read mode c rest).width (c :: rest)
  rw [withReturns_of_notMem hfree, List.length_take, Nat.min_eq_left hle] at htake hdrop
  rw [htake, hdrop]
  exact h

lemma agrees_comment (hstands : place.Stands source ('/' :: '*' :: rest))
    (h : AgreesBehind source mode place '/' ('*' :: rest)) :
    Agrees source (read mode place ('/' :: '*' :: rest))
      (read mode place (withReturns ('/' :: '*' :: rest))) := by
  have hread (rest : List Char) :
      Piece.read mode '/' ('*' :: rest) = Piece.ofComment ('/' :: '*' :: rest) := by
    simp [Piece.read]
  obtain ⟨hwidth, hfault, hbreak⟩ := Piece.ofComment_withReturns rest
  rw [AgreesBehind, hread] at h
  have hread' : Piece.read mode '/' (withReturns ('*' :: rest)) =
      Piece.ofComment ('/' :: '*' :: withReturns rest) := by
    rw [withReturns_cons (by decide), hread]
  refine agrees_piece (by simp [IsPadding]) (by decide) (hread rest) hread' ?_ hfault ?_ ?_
  · rcases hbreak with ⟨hnone, hnone'⟩ | ⟨text, text', htoken, htoken'⟩
    · simp [kept, hnone, hnone']
    · simp only [kept, htoken, htoken']
      split
      · exact .cons (Lexeme.returned_lineBreak (.inl ⟨rfl, hstands.start⟩)) .nil
      · exact .nil
  · rcases hbreak with ⟨hnone, hnone'⟩ | ⟨text, text', htoken, htoken'⟩
    · simp [modeBehind, hnone, hnone']
    · simp [modeBehind, htoken, htoken']
  · rwa [hwidth, take_withReturns, drop_withReturns, advance_withReturns]

lemma returned_continued {line behind : List Char} {carrier : Carrier} {text : String}
    {lexeme lexeme' : List Char} (hline : '\n' ∉ line)
    (hstands : place.Stands source (line ++ '\n' :: behind))
    (hsame : Lexeme.Returned source ⟨.payload carrier text, String.ofList lexeme, place⟩
      ⟨.payload carrier text, String.ofList lexeme, place⟩)
    (hlexeme : lexeme'.length = lexeme.length ∨ (carrier = .label ∧ text = "") ∧
      lexeme.length = line.length ∧ lexeme'.length = line.length + 1) :
    Lexeme.Returned source ⟨.payload carrier text, String.ofList lexeme, place⟩
      ⟨.payload carrier text, String.ofList lexeme', place⟩ := by
  have hpayload := hsame.payload rfl
  refine ⟨⟨rfl, hsame.start, fun htoken => ?_⟩, fun _ => rfl, fun htoken hcarrier => ?_⟩
  · -- the payload starts where it did
    obtain ⟨-, rfl⟩ := Token.payload.inj htoken
    simp only [Lexeme.payloadStart, String.length_ofList] at hpayload ⊢
    rcases hlexeme with hlength | ⟨⟨-, rfl⟩, hlength, hlength'⟩
    · rwa [hlength]
    · -- The empty name stands at the end of the line, in front of the return and behind it.
      have hend : place.Stands source (line ++ ['\n'] ++ behind) := by simpa using hstands
      have hempty : (Token.payload carrier "").text?.elim 0 String.length = 0 := rfl
      rw [hempty, hlength, hlength', Nat.sub_zero, Nat.sub_zero]
      exact ⟨by simp, .inr ⟨rfl, .inr ⟨by rw [Position.right_right], hend.part hline⟩⟩⟩
  · obtain ⟨rfl, -⟩ := Token.payload.inj htoken
    rcases hlexeme with hlength | ⟨⟨hlabel, -⟩, -⟩
    · simp only [Lexeme.payloadStart, String.length_ofList, hlength]
    · exact absurd hlabel hcarrier

/-- A piece that runs to the end of its line, where it takes the return as well, gives the same
token. -/
lemma kept_grown {line behind : List Char} {piece piece' : Piece} (hline : '\n' ∉ line)
    (hstands : place.Stands source (line ++ '\n' :: behind))
    (hgrows : Piece.GrowsAt True line.length piece piece')
    (hsame : List.Forall₂ (Lexeme.Returned source) (kept mode place piece)
      (kept mode place piece)) :
    List.Forall₂ (Lexeme.Returned source) (kept mode place piece) (kept mode place piece') := by
  have htoken := hgrows.token
  rcases piece with ⟨width, token, fault⟩
  rcases piece' with ⟨width', token', fault'⟩
  cases htoken with
  | nothing => exact .nil
  | payload hcontinues =>
    obtain ⟨rfl, hlexeme⟩ := hcontinues trivial
    simp only [kept] at hsame ⊢
    split
    · next hkeeps =>
      rw [if_pos hkeeps] at hsame
      cases hsame with
      | cons hsame _ => exact .cons (returned_continued hline hstands hsame hlexeme) .nil
    · exact .nil

lemma modeBehind_grown {same : Prop} {n : Nat} {piece piece' : Piece}
    (hgrows : Piece.GrowsAt same n piece piece') :
    modeBehind mode piece' = modeBehind mode piece := by
  have htoken := hgrows.token
  rcases piece with ⟨width, token, fault⟩
  rcases piece' with ⟨width', token', fault'⟩
  cases htoken <;> rfl

lemma agrees_grown {line behind : List Char} {piece' : Piece} (hc : ¬IsPadding c)
    (hcs : '\n' ∉ c :: line) (hstands : place.Stands source (c :: (line ++ '\n' :: behind)))
    (hread' : Piece.read mode c (withReturns (line ++ '\n' :: behind)) = piece')
    (hgrows : Piece.GrowsAt True (c :: line).length (Piece.read mode c (line ++ '\n' :: behind))
      piece')
    (h : AgreesBehind source mode place c (line ++ '\n' :: behind)) :
    Agrees source (read mode place (c :: (line ++ '\n' :: behind)))
      (read mode place (withReturns (c :: (line ++ '\n' :: behind)))) := by
  have hline : c ≠ '\n' := fun heq => hcs (by simp [heq])
  refine agrees_piece hc hline rfl hread'
    (kept_grown hcs hstands hgrows (kept_of_stands hc hstands)) hgrows.fault
    (modeBehind_grown hgrows) ?_
  -- The return is padding in front of the line feed, or the end of the piece.
  have hwhole : withReturns (c :: line ++ '\n' :: behind) =
      (c :: line ++ ['\r']) ++ '\n' :: withReturns behind := by
    rw [withReturns_append, withReturns_of_notMem hcs, withReturns_lineFeed, List.append_assoc]
    rfl
  have hlength : (c :: line).length + 1 = (c :: line ++ ['\r']).length := by simp
  have hplace : place.advance (c :: line ++ ['\r']) = (place.advance (c :: line)).next '\r' :=
    Position.advance_append place (c :: line) ['\r']
  rw [AgreesBehind, hgrows.width, ← List.cons_append, List.drop_left, List.take_left,
    withReturns_lineFeed, read_padding _ _ (.inr (.inr rfl)), ← hplace] at h
  rwa [hgrows.width, hgrows.width', hlength, ← List.cons_append, hwhole, List.drop_left,
    List.take_left, List.drop_left, List.take_left]

lemma agrees_lineFeed (hstands : place.Stands source ('\n' :: rest))
    (h : Agrees source (read .fresh (place.next '\n') rest)
      (read .fresh (place.next '\n') (withReturns rest))) :
    Agrees source (read mode place ('\n' :: rest))
      (read mode place (withReturns ('\n' :: rest))) := by
  have hbreak : place.Stands source ([] ++ ['\n'] ++ rest) := by simpa using hstands
  have hmoved : place.Moved source (place.right 1) := .inr ⟨rfl, hbreak.advance⟩
  have hplace : (place.next '\r').next '\n' = place.next '\n' := rfl
  rw [withReturns_lineFeed, read_padding mode place (.inr (.inr rfl)), read_lineFeed,
    read_lineFeed, hplace]
  refine ⟨List.rel_append ?_ h.lexemes, h.reports⟩
  split
  · exact .nil
  · exact .cons (Lexeme.returned_lineBreak hmoved) .nil

lemma agrees_string (hstands : place.Stands source ('"' :: rest))
    (hstrings : (read mode place ('"' :: rest)).KeepsLines)
    (h : AgreesBehind source mode place '"' rest) :
    Agrees source (read mode place ('"' :: rest))
      (read mode place (withReturns ('"' :: rest))) := by
  have hc : ¬IsPadding '"' := by simp [IsPadding]
  have hread (rest : List Char) : Piece.read mode '"' rest = Piece.ofString ('"' :: rest) := by
    simp [Piece.read]
  -- a closed string holds no line break, so it stays as it is
  by_cases hclosed : '"' ∈ rest
  · have hvalue : '\n' ∉ rest.takeWhile (· != '"') := by
      have hmem : ⟨.string (String.ofList (rest.takeWhile (· != '"'))), String.ofList (trimEnd
          (('"' :: rest).take ((rest.takeWhile (· != '"')).length + 2))), place⟩ ∈
          (read mode place ('"' :: rest)).lexemes := by
        rw [read_piece mode place hc, hread]
        refine List.mem_append_left _ ?_
        simp [kept, Piece.ofString, hclosed, Piece.plain, keeps]
      simpa using hstrings _ hmem _ rfl
    refine agrees_same hc (by decide) hstands ?_ ?_ h
    · rw [hread, hread, Piece.ofString_withReturns hclosed hvalue]
    · rw [hread, Piece.take_ofString hclosed]
      simp [hvalue]
  · have hclosed' : '"' ∉ withReturns rest := by rwa [mem_withReturns (by decide)]
    refine agrees_same hc (by decide) hstands ?_ ?_ h
    · simp [hread, Piece.ofString, hclosed, hclosed']
    · simp [hread, Piece.ofString, hclosed, Piece.wrong]

/-- **Returns change no tokens**, and no places but those of line breaks. -/
theorem agrees_withReturns (hstands : place.Stands source cs) (hreturn : '\r' ∉ cs)
    (hstrings : (read mode place cs).KeepsLines) :
    Agrees source (read mode place cs) (read mode place (withReturns cs)) := by
  induction hn : cs.length using Nat.strongRecOn generalizing mode place cs with
  | ind n ih =>
  rcases cs with _ | ⟨c, rest⟩
  · exact ⟨List.forall₂_same.mpr fun l hl => Lexeme.returned_of_stands hstands hl, rfl⟩
  have hfront (n : Nat) : (place.advance ((c :: rest).take n)).Stands source
      ((c :: rest).drop n) := by
    have hwhole : place.Stands source ((c :: rest).take n ++ (c :: rest).drop n ++ []) := by
      rwa [List.append_nil, List.take_append_drop]
    exact hwhole.advance
  by_cases hc : IsPadding c
  · rw [withReturns_cons hc.ne_lineFeed, read_padding mode place hc, read_padding mode place hc]
    rw [read_padding mode place hc] at hstrings
    exact ih rest.length (by simp [← hn]) (hfront 1)
      (fun hmem => hreturn (List.mem_cons_of_mem c hmem)) hstrings rfl
  by_cases hline : c = '\n'
  · subst hline
    rw [read_lineFeed] at hstrings
    exact agrees_lineFeed hstands (ih rest.length (by simp [← hn]) (hfront 1)
      (fun hmem => hreturn (List.mem_cons_of_mem _ hmem))
      (fun l hl => hstrings l (List.mem_append_right _ hl)) rfl)
  have hbehind : AgreesBehind source mode place c rest := by
    have hstrings' := hstrings
    rw [read_piece mode place hc] at hstrings'
    have hpos := (Piece.fits_read mode c rest).1
    refine ih _ ?_ (hfront _) (fun hmem => hreturn (List.mem_of_mem_drop hmem))
      (fun l hl => hstrings' l (List.mem_append_right _ hl)) rfl
    simp only [List.length_drop, List.length_cons] at hn ⊢
    omega
  by_cases hquote : c = '"'
  · subst hquote
    exact agrees_string hstands hstrings hbehind
  by_cases hcomment : c = '/' ∧ rest.head? = some '*'
  · obtain ⟨rfl, hstar⟩ := hcomment
    obtain ⟨tail, rfl⟩ := List.head?_eq_some_iff.mp hstar
    exact agrees_comment hstands hbehind
  have hfree := Piece.notMem_take mode hline hquote hcomment
  -- the piece may reach up to the end of its line, where the carriage return stands
  by_cases hrest : '\n' ∉ rest
  · exact agrees_same hc hline hstands (by rw [withReturns_of_notMem hrest]) hfree hbehind
  · obtain ⟨line, behind, rfl, hfirst⟩ := List.eq_append_cons_of_mem (not_not.mp hrest)
    have hcs : '\n' ∉ c :: line := by simp [hfirst, Ne.symm hline]
    have hreturn' : '\r' ∉ c :: line := fun hmem => hreturn (List.mem_append_left _ hmem)
    have hcomment' : ¬(c = '/' ∧ line.head? = some '*') := fun ⟨hslash, hstar⟩ => by
      obtain ⟨tail, rfl⟩ := List.head?_eq_some_iff.mp hstar
      exact hcomment ⟨hslash, rfl⟩
    rcases Piece.grows_withReturns behind mode hcs hreturn' hquote hcomment' with
      ⟨-, hgrows⟩ | hsame
    · exact agrees_grown hc hcs hstands rfl hgrows hbehind
    · exact agrees_same hc hline hstands hsame hfree hbehind

end Scan

end QuestScript
