import QuestScript.Statement.Reading

/-!
Reading programs, line by line. What is wrong in one line is reported and does not touch the others.
-/

namespace QuestScript

open Statement

namespace Lexeme

/-- How many lexemes stand in front of the next separator of statements or the end of the line. -/
def statementLength (ts : List Lexeme) : Nat := (ts.takeWhile fun l => !l.endsStatement).length

/-- How many lexemes stand in front of the end of the line. -/
def lineLength (ts : List Lexeme) : Nat :=
  (ts.takeWhile fun l => l.token != .mark .lineBreak).length

end Lexeme

namespace Group

/-- Reports what stands between a statement and the next separator. -/
def trailing (ctx : Context) (behind : List Lexeme) : List Report :=
  if behind.head?.any fun l => !l.endsStatement then [.missing .separator ctx.finish behind] else []

/-- Reads the statements of a logical line. Broken ones are reported and left out, and only what
aborts the whole reading is passed on. -/
def readLine (ctx : Context) (ts : List Lexeme) : Parsed Report (List Statement) :=
  match ts with
  | [] => ⟨⟨[.missing .statement ctx.finish []], .ok []⟩, 0⟩
  | l :: rest =>
    let first := Statement.read ctx (l :: rest)
    let behind := (l :: rest).drop first.taken
    let resume (kept : List Statement) (reports : List Report) : Parsed Report (List Statement) :=
      let passed := Lexeme.statementLength behind
      let n := first.taken + passed
      if startsWith .ampersand (behind.drop passed) then
        if continues (behind.drop passed) then
          let later := readLine ctx (rest.drop n)
          ⟨(later.outcome.map (kept ++ ·)).after (first.reports ++ reports), n + 1 + later.taken⟩
        else ⟨⟨first.reports ++ reports, .ok kept⟩, n + 1⟩
      else ⟨⟨first.reports ++ reports, .ok kept⟩, n⟩
    match first.result with
    | .ok statement => resume [statement] (trailing ctx behind)
    | .error (.aborted cause) => ⟨⟨first.reports, .error cause⟩, first.taken⟩
    | .error (.dropped report) =>
      if l.token = .mark .ifWord then
        ⟨⟨first.reports ++ [report], .ok []⟩, first.taken + Lexeme.lineLength behind⟩
      else resume [] [report]
termination_by ts.length

end Group

namespace Program

/-- Reads the groups of a program. A line without statements gives none. -/
def readGroups (ctx : Context) (ts : List Lexeme) : Parsed Report (List Group) :=
  match ts with
  | [] => .pure []
  | l :: rest =>
    if l.token = .mark .lineBreak then (readGroups ctx rest).after 1
    else
      let line := Group.readLine ctx (l :: rest)
      match line.result with
      | .error cause => ⟨⟨line.reports, .error cause⟩, line.taken⟩
      | .ok statements =>
        let more := line.taken - 1
        let group := if statements.isEmpty then [] else [⟨statements, l.start.line⟩]
        let later := readGroups ctx (rest.drop more)
        ⟨(later.outcome.map (group ++ ·)).after line.reports, more + 1 + later.taken⟩
termination_by ts.length

/-- Reads a program. -/
def read (ctx : Context) (ts : List Lexeme) : Parsed Report Program := (readGroups ctx ts).map (⟨·⟩)

end Program

end QuestScript
