import QuestScript.LinkSpan
import QuestScript.Options
import QuestScript.Outcome
import QuestScript.Program
import QuestScript.Text.Basic

/-!
Reading printed text.

The spans of a text follow one another from left to right and leave nothing out. Link spans are
found first, then substitutions, `#` up to the next `$`; all else is plain. Spans are decoded from
left to right, up to the first one that cannot be, and neighbouring literals become one.

An empty substitution is a blank, a slash is a line break, a second `#` starts the decimal code of a
character, and anything else is the name of a variable. A percent sign in front of all that leaves
no trace.
-/

namespace QuestScript

open Text

/-- A reader of the statements in an action that starts at a place. -/
abbrev ActionReader := Position → List Char → Outcome Refusal Group

namespace Segment

/-- Puts a segment in front of others, as one with the next if both are literals. -/
def glue : Segment → List Segment → List Segment
  | literal a, literal b :: rest => literal (a ++ b) :: rest
  | literal a, rest => if a.isEmpty then rest else literal a :: rest
  | segment, rest => segment :: rest

end Segment

namespace Print

/-! ### Spans -/

inductive Span
  /-- Text that stands for itself, not empty. -/
  | plain (text : List Char)
  /-- The text between `#` and `$`. -/
  | substitution (body : List Char)
  /-- The text between the brackets of a link span. -/
  | link (inner : List Char)
  deriving DecidableEq, Repr

namespace Span

/-- The text that the span covers. -/
def source : Span → List Char
  | plain text => text
  | substitution body => '#' :: body ++ ['$']
  | link inner => '[' :: '[' :: inner ++ [']', ']']

/-- The body of the substitution at the start of the text. -/
def body? : List Char → Option (List Char)
  | c :: cs => if c = '#' && cs.contains '$' then some (cs.takeWhile (· != '$')) else none
  | [] => none

/-- Puts a character that stands for itself in front of spans. -/
def consPlain (c : Char) : List Span → List Span
  | plain text :: spans => plain (c :: text) :: spans
  | spans => plain [c] :: spans

/-- The spans of a text. -/
def ofText (cs : List Char) : List Span :=
  match cs with
  | [] => []
  | c :: rest =>
    match LinkSpan.inner? (c :: rest) with
    | some inner => link inner :: ofText (rest.drop (inner.length + 3))
    | none =>
      match body? (c :: rest) with
      | some body => substitution body :: ofText (rest.drop (body.length + 1))
      | none => consPlain c (ofText rest)
termination_by cs.length

theorem eq_append_of_body? {cs body : List Char} (h : body? cs = some body) :
    ∃ rest, cs = '#' :: body ++ '$' :: rest ∧ '$' ∉ body := by
  unfold body? at h
  split at h
  · rename_i c cs
    split at h
    · rename_i hc
      simp only [Bool.and_eq_true, decide_eq_true_eq, List.contains_iff_mem] at hc
      obtain rfl := Option.some.inj h
      obtain ⟨rest, hr⟩ := eq_takeWhile_append hc.2
      exact ⟨rest, by rw [hc.1, List.cons_append, ← hr], notMem_takeWhile (by simp) _⟩
    · simp at h
  · simp at h

theorem source_consPlain (c : Char) (spans : List Span) :
    (consPlain c spans).flatMap source = c :: spans.flatMap source := by
  unfold consPlain
  split <;> simp [source]

/-- The spans of a text cover all of it, in order. -/
theorem flatMap_source_ofText (cs : List Char) : (ofText cs).flatMap source = cs := by
  fun_induction ofText cs with
  | case1 => rfl
  | case2 c rest inner h ih =>
    obtain ⟨behind, hb, -⟩ := LinkSpan.eq_append_of_inner? h
    have hr : rest = '[' :: inner ++ ']' :: ']' :: behind := (List.cons.inj hb).2
    have hd : rest.drop (inner.length + 3) = behind := by simp [hr]
    rw [List.flatMap_cons, ih, hd, hb]
    simp [source]
  | case3 c rest _ body h ih =>
    obtain ⟨behind, hb, -⟩ := eq_append_of_body? h
    have hr : rest = body ++ '$' :: behind := (List.cons.inj hb).2
    have hd : rest.drop (body.length + 1) = behind := by simp [hr]
    rw [List.flatMap_cons, ih, hd, hb]
    simp [source]
  | case4 c rest _ _ ih => rw [source_consPlain, ih]

end Span

/-! ### Substitutions -/

namespace Substitution

/-- The number that ASCII digits stand for, perhaps with a plus sign in front of them. -/
def number? (cs : List Char) : Option Nat :=
  let digits := if cs.head? = some '+' then cs.tail else cs
  if digits.isEmpty || !digits.all Char.isDigit then none
  else some (digits.foldl (fun n d => 10 * n + (d.toNat - '0'.toNat)) 0)

/-- The character with the code that the text gives. Surrogates are none. -/
def character? (code : List Char) : Option Char :=
  match number? (trim code) with
  | some n => if n.isValidChar then some (Char.ofNat n) else none
  | none => none

/-- The segment that a substitution stands for, or the code that is none. -/
def decode (body : List Char) : Except (List Char) Segment :=
  let body := if body.head? = some '%' then body.tail else body
  match body with
  | [] => .ok (.literal " ")
  | c :: rest =>
    if c = '#' then
      match character? rest with
      | some d => .ok (.literal d.toString)
      | none => .error rest
    else if c = '/' && rest.isEmpty then .ok (.literal "\n")
    else .ok (.value (String.ofList (c :: rest)))

end Substitution

/-! ### Decoding -/

/-- Reads the inside of a link span, which starts at the given place: a label, and perhaps an
action behind a bar. Without an action the label is also the target. -/
def readLink (action : ActionReader) (place : Position) (inner : List Char) :
    Outcome Refusal Segment :=
  let label := inner.takeWhile (· != '|')
  let behind := inner.drop (label.length + 1)
  let name := String.ofList (trim label)
  if behind.contains '|' then .drop (.linkSeparators (String.ofList inner)) place
  else if (trim behind).isEmpty then .pure (.link name (.jump name place.line))
  else
    (action (place.right (label.length + 1 + leadingBlanks behind)) (trim behind)).map (.link name)

/-- Decodes a span that starts at the given place. -/
def Span.decode (policy : SubstitutionPolicy) (action : ActionReader) (place : Position) :
    Span → Outcome Refusal Segment
  | plain text => .pure (.literal (String.ofList text))
  | link inner => readLink action (place.right 2) inner
  | substitution body =>
    match Substitution.decode body with
    | .ok segment => .pure segment
    | .error code =>
      let report : Report := ⟨.badCharacterCode (String.ofList code), place⟩
      match policy with
      | .abort => .fail (.aborted report)
      | .dropStatement => .fail (.dropped report)

/-- Decodes spans that follow one another from the given place on. -/
def Span.decodeAll (policy : SubstitutionPolicy) (action : ActionReader) (place : Position) :
    List Span → Outcome Refusal (List Segment)
  | [] => .pure []
  | span :: spans =>
    (span.decode policy action place).bind fun segment =>
      (decodeAll policy action (place.right span.source.length) spans).map segment.glue

/-- The segments of a printed text that starts at the given place. -/
def read (policy : SubstitutionPolicy) (action : ActionReader) (place : Position)
    (text : List Char) : Outcome Refusal (List Segment) :=
  Span.decodeAll policy action place (Span.ofText text)

end Print

end QuestScript
