import QuestScript.Expr.Reading
import QuestScript.Print.Reading
import QuestScript.Statement.Fields
import QuestScript.Suggestion
import QuestScript.Token.Scan

/-!
Reading statements and logical lines.

The payload of an inventory change is an item, perhaps with a quantity and a comma in front of it.
The quantity is an expression of its own, read from its own tokens. The payload of a button is an
action and a label, perhaps with something extra, separated by commas. A single field is both the
label and the location that the button leads to.

The branches of a conditional run to the end of the line, so a group of statements and a statement
are read by each other. A line that holds a broken statement is read on behind the next ampersand;
a broken conditional takes the rest of the line with it, for its branches end there.
-/

namespace QuestScript

open Text

/-! ### Payloads with fields -/

namespace InventoryChange

/-- Reads a quantity that starts at the given place. -/
def readQuantity (place : Position) (text : List Char) : Outcome Refusal NumberExpr :=
  let scan := Scan.read .fresh place text
  let (ts, finish) := Lexeme.untilEnd scan.lexemes
  let reading := NumberExpr.read ts
  let behind := ts.drop reading.taken
  match reading.result with
  | .error wanted => ⟨scan.reports, .error (.dropped (.missing wanted finish behind))⟩
  | .ok quantity =>
    if behind.isEmpty then ⟨scan.reports, .ok quantity⟩
    else ⟨scan.reports, .error (.dropped (.missing .quantityEnd finish behind))⟩

/-- The change of an item by a quantity, which starts at the given place. -/
def ofItem (remove : Bool) (place : Position) (item : List Char) (quantity : NumberExpr) :
    Outcome Refusal InventoryChange :=
  if (trim item).isEmpty then .drop .changeWithoutItem place
  else
    .pure (.change (if remove then .negate quantity else quantity) (String.ofList (trim item)))

/-- Reads a payload that starts at the given place. Without a quantity it is one. -/
def read (remove : Bool) (place : Position) (payload : List Char) :
    Outcome Refusal InventoryChange :=
  match Fields.split 1 payload with
  | [quantity, item] =>
    (readQuantity (place.right (leadingBlanks quantity)) (trim quantity)).bind
      (ofItem remove (place.right (quantity.length + 1)) item)
  | fields => ofItem remove place fields.flatten (.const ⟨0x3FF0000000000000⟩)

end InventoryChange

namespace Statement

/-- Reads the payload of a button, which starts at the given place. -/
def readButton (action : ActionReader) (place : Position) (payload : List Char) :
    Outcome Refusal Statement :=
  match Fields.split 2 payload with
  | [] => .drop .buttonWithoutTarget place
  | [target] =>
    let name := String.ofList (trim target)
    if (trim target).isEmpty then .drop .buttonWithoutTarget place
    else .pure (.button name (.jump name place.line) none)
  | ops :: caption :: rest =>
    if (trim ops).isEmpty then .drop .buttonWithoutAction place
    else
      (action (place.right (leadingBlanks ops)) (trim ops)).map fun group =>
        .button (String.ofList (trim caption)) group
          (rest.head?.map fun extra => String.ofList (trim extra))

end Statement

/-! ### Statements -/

/-- What statements are read by: the caller's policy, a reader for the actions in links and
buttons, and the lexeme at the end of the source. -/
structure Context where
  policy : SubstitutionPolicy
  action : ActionReader
  finish : Lexeme

namespace Context

/-- The refusal at the start of a list where something is wanted. -/
def missing (ctx : Context) (wanted : Wanted) (ts : List Lexeme) : Refusal :=
  .dropped (.missing wanted ctx.finish ts)

/-- A reading of the list, as part of a statement. -/
def lift {α : Type} (ctx : Context) (ts : List Lexeme) (r : Reading α) : Parsed Refusal α :=
  match r.result with
  | .ok a => ⟨.pure a, r.taken⟩
  | .error wanted => ⟨.fail (ctx.missing wanted (ts.drop r.taken)), r.taken⟩

end Context

/-- The text without a quote at each end, if it has both. -/
def unquote (text : List Char) : List Char :=
  if 2 ≤ text.length && text.head? = some '"' && text.getLast? = some '"' then
    text.tail.dropLast
  else text

/-- The text without blanks around it, if anything is left. -/
def optionalName (text : List Char) : Option String :=
  if (trim text).isEmpty then none else some (String.ofList (trim text))

/-- The text without blanks around it, which a statement at the given place cannot do without. -/
def requiredName (what : Essential) (place : Position) (text : List Char) :
    Outcome Refusal String :=
  if (trim text).isEmpty then .drop (.blankName what) place else .pure (String.ofList (trim text))

namespace Statement

/-- Reads the payload of a statement. The lexeme is that of the whole statement. -/
def readPayload (ctx : Context) (l : Lexeme) (carrier : Carrier) (text : List Char) :
    Outcome Refusal Statement :=
  match carrier with
  | .print newline =>
    (Print.read ctx.policy ctx.action l.payloadStart text).map (.print · newline)
  | .button => readButton ctx.action l.payloadStart text
  | .goto => (requiredName .gotoTarget l.start text).map .goto
  | .call => (requiredName .callTarget l.start text).map .call
  | .save => .pure (.save (optionalName text))
  | .label => (requiredName .labelName l.start text).map .label
  | .inventoryAdd => (InventoryChange.read false l.payloadStart text).map .inventory
  | .inventoryRemove => (InventoryChange.read true l.payloadStart text).map .inventory
  | .inventoryClear => .pure (.inventory (.clear (optionalName text)))
  | .media kind => (requiredName .mediaFile l.start (unquote (trim text))).map (.media kind)

/-- Reads an assignment behind the name of its variable. A missing equals sign may be due to a
misspelled keyword in front of it. -/
def readAssignment (ctx : Context) (name : String) (ts : List Lexeme) :
    Parsed Refusal Statement :=
  let met := ts.headD ctx.finish
  if met.token = .mark .equal then
    ((ctx.lift ts.tail (Expr.read ts.tail)).map (.assign name)).after 1
  else
    let suggestion := Suggestion.nearest? name Suggestion.keywords
    ⟨.drop (.unexpectedToken .equals met.token suggestion) met.start, 0⟩

/-- Takes the name of a variable, if there is one. -/
def readVariable (make : Option String → Statement) : List Lexeme → Parsed Refusal Statement
  | l :: _ =>
    match l.token with
    | .name name => ⟨.pure (make (some name)), 1⟩
    | _ => ⟨.pure (make none), 0⟩
  | [] => ⟨.pure (make none), 0⟩

/-- Reads a statement that is not a conditional, from its first lexeme and those behind it. -/
def readSimple (ctx : Context) (l : Lexeme) (rest : List Lexeme) : Parsed Refusal Statement :=
  match l.token with
  | .name name => (readAssignment ctx name rest).after 1
  | .payload carrier text => ⟨readPayload ctx l carrier text.toList, 1⟩
  | .mark .endWord => ⟨.pure .finish, 1⟩
  | .mark .quit => ⟨.pure .quit, 1⟩
  | .mark .clearScreen => ⟨.pure .clearScreen, 1⟩
  | .mark .forgetCalls => ⟨.pure .dropCalls, 1⟩
  | .mark .input => (readVariable .input rest).after 1
  | .mark .anyKey => (readVariable .anyKey rest).after 1
  | .mark .pause => ((ctx.lift rest (NumberExpr.read rest)).map .pause).after 1
  | _ => ⟨.fail (ctx.missing .statement (l :: rest)), 0⟩

/-- Whether the list starts with the given mark. -/
def startsWith (m : Mark) (ts : List Lexeme) : Bool := ts.head?.any fun l => l.token = .mark m

/-- Takes the word `then`. -/
def takeThen (ctx : Context) (ts : List Lexeme) : Parsed Refusal Unit :=
  if startsWith .thenWord ts then ⟨.pure (), 1⟩ else ⟨.fail (ctx.missing .thenWord ts), 0⟩

/-- Whether an ampersand and another statement on the same line follow. -/
def continues (ts : List Lexeme) : Bool :=
  startsWith .ampersand ts && !ts.tail.isEmpty && !startsWith .lineBreak ts.tail

mutual

/-- Reads a statement. -/
def read (ctx : Context) (ts : List Lexeme) : Parsed Refusal Statement :=
  match ts with
  | [] => ⟨.fail (ctx.missing .statement []), 0⟩
  | l :: rest =>
    if l.token = .mark .ifWord then (readConditional ctx l.start.line rest).after 1
    else readSimple ctx l rest
termination_by 4 * ts.length + 1

/-- Reads a conditional behind its first word, which stands on the given line. -/
def readConditional (ctx : Context) (line : Nat) (ts : List Lexeme) : Parsed Refusal Statement :=
  (ctx.lift ts (BoolExpr.read ts)).bind fun condition k =>
    (takeThen ctx (ts.drop k)).bind fun _ _ =>
      (readGroup ctx line (ts.drop (k + 1))).bind fun thenGroup n =>
        if startsWith .elseWord (ts.drop (k + 1 + n)) then
          ((readGroup ctx line (ts.drop (k + 1 + n + 1))).map fun elseGroup =>
            .conditional condition thenGroup (some elseGroup)).after 1
        else .pure (.conditional condition thenGroup none)
termination_by 4 * ts.length + 4

/-- Reads the statements of a branch, which stands on the given line. -/
def readGroup (ctx : Context) (line : Nat) (ts : List Lexeme) : Parsed Refusal Group :=
  (readChain ctx ts).map (⟨·, line⟩)
termination_by 4 * ts.length + 3

/-- Reads statements joined by ampersands. An ampersand at the end of the line is left. -/
def readChain (ctx : Context) (ts : List Lexeme) : Parsed Refusal (List Statement) :=
  (read ctx ts).bind fun statement k =>
    match ts with
    | [] => .pure [statement]
    | l :: rest =>
      if continues ((l :: rest).drop k) then
        ((readChain ctx (rest.drop k)).map (statement :: ·)).after 1
      else .pure [statement]
termination_by 4 * ts.length + 2

end

end Statement

end QuestScript
