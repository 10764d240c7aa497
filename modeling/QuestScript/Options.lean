/-!
The settings of a caller, and how they are taken from a configuration file.
-/

namespace QuestScript

/-- What to do when a character code cannot be decoded. -/
inductive SubstitutionPolicy
  /-- Give up the whole source. -/
  | abort
  /-- Leave out the statement and go on. -/
  | dropStatement
  deriving DecidableEq, Repr

structure Options where
  /-- How many actions may nest inside one another. -/
  maxNesting : Nat := 16
  policy : SubstitutionPolicy := .abort
  deriving DecidableEq, Repr

namespace Options

def withMaxNesting (o : Options) (depth : Nat) : Options := { o with maxNesting := depth }

def withPolicy (o : Options) (policy : SubstitutionPolicy) : Options := { o with policy }

end Options

/-- A value in a configuration file. -/
inductive Setting
  | none
  | count (n : Nat)
  | word (s : String)
  | list (items : List Setting)
  | table (entries : List (String × Setting))
  /-- A value of a kind that no option has, such as a negative number or a fraction. -/
  | other
  deriving Inhabited

namespace Setting

/-- A nesting depth fits in 64 bits. -/
def depth? : Setting → Option Nat
  | count n => if n < UInt64.size then some n else .none
  | _ => .none

/-- The policy with the given name. -/
def policyNamed? (name : String) : Option SubstitutionPolicy :=
  if name = "abort" then some .abort
  else if name = "drop_statement" then some .dropStatement
  else .none

/-- A policy is given by its name, or as a table with that name for its only key. -/
def policy? : Setting → Option SubstitutionPolicy
  | word name => policyNamed? name
  | table [(name, .none)] => policyNamed? name
  | _ => .none

/-- Reads an entry that may be missing. -/
def entry? {α : Type} (default : α) (read? : Setting → Option α) : Option Setting → Option α
  | some s => read? s
  | .none => some default

/-- The options in a table, or in a list in the order of their fields. Entries that are missing
have their defaults, and a table may hold other entries. -/
def options? : Setting → Option Options
  | table entries => do
    let depth ← entry? 16 depth? (entries.lookup "max_nesting_depth")
    let policy ← entry? .abort policy? (entries.lookup "substitution_policy")
    some ⟨depth, policy⟩
  | list items =>
    if items.length ≤ 2 then do
      let depth ← entry? 16 depth? items[0]?
      let policy ← entry? .abort policy? items[1]?
      some ⟨depth, policy⟩
    else .none
  | _ => .none

end Setting

end QuestScript
