import QuestScript.Fault

/-!
What reading comes to.

Three kinds of readers work on quest source. A reader of expressions takes lexemes from a list and
gives an expression, or says what it wanted. A reader of embedded text gives a value or a refusal,
and may make reports on the way. A reader of statements does both. Readers of lexemes say how many
they took, also when they fail, so the next reader goes on where they stopped.
-/

namespace QuestScript

/-- The outcome of reading an expression. -/
structure Reading (α : Type) where
  result : Except Wanted α
  taken : Nat

namespace Reading

variable {α β : Type}

/-- Takes nothing. -/
def pure (a : α) : Reading α := ⟨.ok a, 0⟩

def fail (wanted : Wanted) : Reading α := ⟨.error wanted, 0⟩

/-- The reading when so many lexemes were taken before it. -/
def after (n : Nat) (r : Reading α) : Reading α := ⟨r.result, n + r.taken⟩

/-- Reads on behind what was taken. -/
def bind (r : Reading α) (next : α → Nat → Reading β) : Reading β :=
  match r.result with
  | .ok a => (next a r.taken).after r.taken
  | .error wanted => ⟨.error wanted, r.taken⟩

def map (f : α → β) (r : Reading α) : Reading β := ⟨r.result.map f, r.taken⟩

@[simp] theorem result_after (n : Nat) (r : Reading α) : (r.after n).result = r.result := rfl

@[simp] theorem taken_after (n : Nat) (r : Reading α) : (r.after n).taken = n + r.taken := rfl

theorem bind_of_ok {r : Reading α} {a : α} (h : r.result = .ok a) (next : α → Nat → Reading β) :
    r.bind next = (next a r.taken).after r.taken := by
  simp [bind, h]

theorem bind_of_error {r : Reading α} {wanted : Wanted} (h : r.result = .error wanted)
    (next : α → Nat → Reading β) : r.bind next = ⟨.error wanted, r.taken⟩ := by
  simp [bind, h]

end Reading

/-- Why a statement was not read. -/
inductive Refusal
  /-- The statement is left out and reading goes on. -/
  | dropped (report : Report)
  /-- Reading the whole source is given up. -/
  | aborted (report : Report)
  deriving DecidableEq, Repr

/-- A result, with the reports made on the way to it. -/
structure Outcome (ε α : Type) where
  reports : List Report
  result : Except ε α

namespace Outcome

variable {ε α β : Type}

def pure (a : α) : Outcome ε α := ⟨[], .ok a⟩

def fail (e : ε) : Outcome ε α := ⟨[], .error e⟩

/-- The statement is left out because of a fault. -/
def drop (fault : Fault) (place : Position) : Outcome Refusal α := fail (.dropped ⟨fault, place⟩)

/-- The outcome when reports were made before it. -/
def after (reports : List Report) (o : Outcome ε α) : Outcome ε α :=
  ⟨reports ++ o.reports, o.result⟩

def bind (o : Outcome ε α) (next : α → Outcome ε β) : Outcome ε β :=
  match o.result with
  | .ok a => (next a).after o.reports
  | .error e => ⟨o.reports, .error e⟩

def map (f : α → β) (o : Outcome ε α) : Outcome ε β := ⟨o.reports, o.result.map f⟩

theorem bind_of_ok {o : Outcome ε α} {a : α} (h : o.result = .ok a) (next : α → Outcome ε β) :
    o.bind next = (next a).after o.reports := by
  simp [bind, h]

theorem bind_of_error {o : Outcome ε α} {e : ε} (h : o.result = .error e)
    (next : α → Outcome ε β) : o.bind next = ⟨o.reports, .error e⟩ := by
  simp [bind, h]

end Outcome

/-- An outcome of reading lexemes. -/
structure Parsed (ε α : Type) where
  outcome : Outcome ε α
  taken : Nat

namespace Parsed

variable {ε α β : Type}

def result (p : Parsed ε α) : Except ε α := p.outcome.result

def reports (p : Parsed ε α) : List Report := p.outcome.reports

/-- Takes nothing. -/
def pure (a : α) : Parsed ε α := ⟨.pure a, 0⟩

/-- The outcome when so many lexemes were taken before it. -/
def after (n : Nat) (p : Parsed ε α) : Parsed ε α := ⟨p.outcome, n + p.taken⟩

/-- Reads on behind what was taken. -/
def bind (p : Parsed ε α) (next : α → Nat → Parsed ε β) : Parsed ε β :=
  match p.result with
  | .ok a =>
    let q := next a p.taken
    ⟨q.outcome.after p.reports, p.taken + q.taken⟩
  | .error e => ⟨⟨p.reports, .error e⟩, p.taken⟩

def map (f : α → β) (p : Parsed ε α) : Parsed ε β := ⟨p.outcome.map f, p.taken⟩

theorem bind_of_ok {p : Parsed ε α} {a : α} (h : p.result = .ok a) (next : α → Nat → Parsed ε β) :
    p.bind next =
      ⟨(next a p.taken).outcome.after p.reports, p.taken + (next a p.taken).taken⟩ := by
  simp [bind, h]

theorem bind_of_error {p : Parsed ε α} {e : ε} (h : p.result = .error e)
    (next : α → Nat → Parsed ε β) : p.bind next = ⟨⟨p.reports, .error e⟩, p.taken⟩ := by
  simp [bind, h]

end Parsed

end QuestScript
