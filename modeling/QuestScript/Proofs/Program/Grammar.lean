import QuestScript.Proofs.Expr.Grammar
import QuestScript.Proofs.Program.Origin

/-!
The grammar of programs, as derivations.

A statement yields the lexemes that it is made of: a keyword or the name of a variable, then its
parts in order. Statements joined by ampersands make a chain; a line is a chain, perhaps with one
more ampersand behind it; a program is lines between line breaks. Nothing stands between the parts
of a derivation, so every lexeme is used once and in its place.

Where a reader succeeds and reports nothing, what it gives yields the lexemes that it took.
-/

namespace QuestScript

/-- The statement is of the kind that the payload keyword stands for. -/
def Carrier.Makes : Carrier → Statement → Prop
  | print newline, .print _ breaks => breaks = newline
  | button, .button _ _ _ => True
  | goto, .goto _ => True
  | call, .call _ => True
  | save, .save _ => True
  | label, .label _ => True
  | inventoryAdd, .inventory (.change _ _) => True
  | inventoryRemove, .inventory (.change quantity _) => ∃ n, quantity = .negate n
  | inventoryClear, .inventory (.clear _) => True
  | media kind, .media shown _ => shown = kind
  | _, _ => False

/-- The statement that a keyword makes by itself. -/
def Mark.alone? : Mark → Option Statement
  | endWord => some .finish
  | quit => some .quit
  | clearScreen => some .clearScreen
  | forgetCalls => some .dropCalls
  | _ => none

/-- The statement that a keyword makes with the name of a variable behind it, or without one. -/
def Mark.waits? : Mark → Option (Option String → Statement)
  | input => some .input
  | anyKey => some .anyKey
  | _ => none

namespace Statement

mutual

/-- The statement yields the lexemes. A payload is one lexeme, and its reader makes the statement of
the text in it. The branches of a conditional stand on the line of its first word. -/
inductive Yields (layout : BoolExpr.Layout) (ctx : Context) : Statement → List Lexeme → Prop
  | assign {l o : Lexeme} {name : String} {value : Expr} {ts : List Lexeme}
      (hl : l.token = .name name) (ho : o.token = .mark .equal)
      (hvalue : value.Yields layout (ts.map Lexeme.token)) :
      Yields layout ctx (assign name value) (l :: o :: ts)
  | payload {l : Lexeme} {carrier : Carrier} {text : String} {s : Statement}
      (hl : l.token = .payload carrier text) (hmakes : carrier.Makes s)
      (hread : readPayload ctx l carrier text.toList = ⟨[], .ok s⟩) : Yields layout ctx s [l]
  | alone {l : Lexeme} {m : Mark} {s : Statement} (hl : l.token = .mark m)
      (hm : m.alone? = some s) : Yields layout ctx s [l]
  | wait {l : Lexeme} {m : Mark} {make : Option String → Statement} (hl : l.token = .mark m)
      (hm : m.waits? = some make) : Yields layout ctx (make none) [l]
  | waitFor {l o : Lexeme} {m : Mark} {make : Option String → Statement} {name : String}
      (hl : l.token = .mark m) (hm : m.waits? = some make) (ho : o.token = .name name) :
      Yields layout ctx (make (some name)) [l, o]
  | pause {l : Lexeme} {duration : NumberExpr} {ts : List Lexeme} (hl : l.token = .mark .pause)
      (hduration : duration.Yields 4 (ts.map Lexeme.token)) :
      Yields layout ctx (pause duration) (l :: ts)
  | conditional {l t : Lexeme} {condition : BoolExpr} {branch : List Statement}
      {ts us : List Lexeme} (hl : l.token = .mark .ifWord)
      (hcondition : condition.Yields layout 1 (ts.map Lexeme.token))
      (ht : t.token = .mark .thenWord) (hbranch : YieldsChain layout ctx branch us) :
      Yields layout ctx (conditional condition ⟨branch, l.start.line⟩ none) (l :: (ts ++ t :: us))
  | either {l t e : Lexeme} {condition : BoolExpr} {branch other : List Statement}
      {ts us vs : List Lexeme} (hl : l.token = .mark .ifWord)
      (hcondition : condition.Yields layout 1 (ts.map Lexeme.token))
      (ht : t.token = .mark .thenWord) (hbranch : YieldsChain layout ctx branch us)
      (he : e.token = .mark .elseWord) (hother : YieldsChain layout ctx other vs) :
      Yields layout ctx
        (conditional condition ⟨branch, l.start.line⟩ (some ⟨other, l.start.line⟩))
        (l :: (ts ++ t :: (us ++ e :: vs)))

/-- The statements, joined by ampersands, yield the lexemes. -/
inductive YieldsChain (layout : BoolExpr.Layout) (ctx : Context) :
    List Statement → List Lexeme → Prop
  | single {s : Statement} {ts : List Lexeme} (h : Yields layout ctx s ts) :
      YieldsChain layout ctx [s] ts
  | cons {s : Statement} {chain : List Statement} {l : Lexeme} {ts us : List Lexeme}
      (h : Yields layout ctx s ts) (hl : l.token = .mark .ampersand)
      (hchain : YieldsChain layout ctx chain us) :
      YieldsChain layout ctx (s :: chain) (ts ++ l :: us)

end

end Statement

/-- The statements of a line yield the lexemes. One ampersand may stand at the end of the line. -/
inductive Group.YieldsLine (layout : BoolExpr.Layout) (ctx : Context) :
    List Statement → List Lexeme → Prop
  | chain {statements : List Statement} {ts : List Lexeme}
      (h : Statement.YieldsChain layout ctx statements ts) :
      YieldsLine layout ctx statements ts
  | trailing {statements : List Statement} {l : Lexeme} {ts : List Lexeme}
      (h : Statement.YieldsChain layout ctx statements ts) (hl : l.token = .mark .ampersand) :
      YieldsLine layout ctx statements (ts ++ [l])

namespace Program

/-- The groups yield the lexemes. A line break stands between two groups, and any number of them may
stand before, between and behind the groups. -/
inductive YieldsGroups (layout : BoolExpr.Layout) (ctx : Context) :
    List Group → List Lexeme → Prop
  | nil : YieldsGroups layout ctx [] []
  | lineBreak {groups : List Group} {l : Lexeme} {ts : List Lexeme}
      (hl : l.token = .mark .lineBreak) (h : YieldsGroups layout ctx groups ts) :
      YieldsGroups layout ctx groups (l :: ts)
  | line {statements : List Statement} {groups : List Group} {l : Lexeme} {ts us : List Lexeme}
      (hline : Group.YieldsLine layout ctx statements (l :: ts))
      (hend : ∀ o ∈ us.head?, o.token = .mark .lineBreak)
      (h : YieldsGroups layout ctx groups us) :
      YieldsGroups layout ctx (⟨statements, l.start.line⟩ :: groups) (l :: ts ++ us)

/-- The program yields the lexemes. -/
def Yields (layout : BoolExpr.Layout) (ctx : Context) (p : Program) (ts : List Lexeme) : Prop :=
  YieldsGroups layout ctx p.groups ts

end Program

variable {ctx : Context} {ts rest : List Lexeme} {l : Lexeme} {k : Nat}

/-! ### What derivations look like -/

lemma Statement.Yields.of_assign {layout : BoolExpr.Layout} {name : String} {value : Expr}
    (h : (Statement.assign name value).Yields layout ctx ts) :
    ∃ l o us, ts = l :: o :: us ∧ value.Yields layout (us.map Lexeme.token) := by
  generalize hs : Statement.assign name value = s at h
  cases h with
  | assign hl ho hvalue =>
    obtain ⟨rfl, rfl⟩ := Statement.assign.inj hs
    exact ⟨_, _, _, rfl, hvalue⟩
  | @payload _ carrier _ _ hl hmakes => cases carrier <;> simp [← hs, Carrier.Makes] at hmakes
  | @alone _ m _ hl hm => cases m <;> simp [← hs, Mark.alone?] at hm
  | @wait _ m _ hl hm | @waitFor _ _ m _ _ hl hm =>
    cases m <;> simp [Mark.waits?] at hm <;> simp [← hm] at hs
  | pause | conditional | either => simp at hs

lemma Statement.YieldsChain.of_single {layout : BoolExpr.Layout} {s : Statement}
    (h : YieldsChain layout ctx [s] ts) : s.Yields layout ctx ts := by
  cases h with
  | single h => exact h
  | cons _ _ hchain => cases hchain

lemma Program.Yields.of_single {layout : BoolExpr.Layout} {s : Statement} {line : Nat}
    (h : Program.Yields layout ctx ⟨[⟨[s], line⟩]⟩ ts)
    (hts : ∀ l ∈ ts, l.endsStatement = false) : s.Yields layout ctx ts := by
  have hbreak {l : Lexeme} (hl : l ∈ ts) : l.token ≠ .mark .lineBreak := by
    have := hts l hl
    simp_all [Lexeme.endsStatement]
  have hampersand {l : Lexeme} (hl : l ∈ ts) : l.token ≠ .mark .ampersand := by
    have := hts l hl
    simp_all [Lexeme.endsStatement]
  -- the list has no line breaks and no ampersands, so there is one line with one chain
  unfold Program.Yields at h
  generalize hgroups : [Group.mk [s] line] = groups at h
  cases h with
  | nil => simp at hgroups
  | lineBreak hl h => exact absurd hl (hbreak (by simp))
  | @line statements later l us vs hline hend h =>
    obtain ⟨⟨rfl, -⟩, rfl⟩ : ([s] = statements ∧ line = l.start.line) ∧ [] = later := by
      simpa using hgroups
    cases h with
    | lineBreak hl h => exact absurd hl (hbreak (by simp))
    | nil =>
      rw [List.append_nil] at hampersand ⊢
      generalize l :: us = ws at hline hampersand ⊢
      cases hline with
      | chain hchain => exact hchain.of_single
      | trailing hchain hl => exact absurd hl (hampersand (by simp))

/-! ### Statements that are no conditionals -/

lemma Carrier.makes_of_readButton {action : ActionReader} {place : Position} {text : List Char}
    {s : Statement} {rs : List Report}
    (h : Statement.readButton action place text = ⟨rs, .ok s⟩) : Carrier.button.Makes s := by
  unfold Statement.readButton at h
  split at h
  · simp at h
  · split at h
    · simp at h
    · obtain ⟨-, rfl⟩ := Outcome.pure_eq_ok.mp h
      trivial
  · split at h
    · simp at h
    · obtain ⟨group, -, rfl⟩ := Outcome.map_eq_ok.mp h
      trivial

lemma Carrier.makes_of_readPayload {carrier : Carrier} {text : List Char} {s : Statement}
    {rs : List Report} (h : Statement.readPayload ctx l carrier text = ⟨rs, .ok s⟩) :
    carrier.Makes s := by
  cases carrier with
  | print newline =>
    obtain ⟨segments, -, rfl⟩ := Outcome.map_eq_ok.mp h
    rfl
  | button => exact makes_of_readButton h
  | save =>
    obtain ⟨-, rfl⟩ := Outcome.pure_eq_ok.mp h
    trivial
  | inventoryClear =>
    obtain ⟨-, rfl⟩ := Outcome.pure_eq_ok.mp h
    trivial
  | goto =>
    obtain ⟨target, -, rfl⟩ := Outcome.map_eq_ok.mp h
    trivial
  | call =>
    obtain ⟨target, -, rfl⟩ := Outcome.map_eq_ok.mp h
    trivial
  | label =>
    obtain ⟨name, -, rfl⟩ := Outcome.map_eq_ok.mp h
    trivial
  | inventoryAdd =>
    obtain ⟨change, hchange, rfl⟩ := Outcome.map_eq_ok.mp h
    obtain ⟨quantity, item, -, rfl⟩ := Statement.change_of_read hchange
    trivial
  | inventoryRemove =>
    obtain ⟨change, hchange, rfl⟩ := Outcome.map_eq_ok.mp h
    obtain ⟨quantity, item, -, rfl⟩ := Statement.change_of_read hchange
    exact ⟨quantity, rfl⟩
  | media kind =>
    obtain ⟨source, -, rfl⟩ := Outcome.map_eq_ok.mp h
    rfl

lemma Reading.Gives.of_ok {α : Type} {P : α → List Token → Prop} {r : Reading α} {a : α}
    (h : r.Gives P [] ts) (hr : r = ⟨.ok a, k⟩) : P a ((ts.take k).map Lexeme.token) := by
  simpa [hr] using h a (by rw [hr])

namespace Statement

lemma take_of_drop_eq {i j : Nat} (h : ts.drop i = l :: rest) :
    ts.take (i + 1 + j) = ts.take i ++ l :: rest.take j := by
  rw [Nat.add_assoc, List.take_add, h, Nat.add_comm 1 j, List.take_succ_cons]

lemma yields_of_readAssignment {s : Statement} {name : String} (hl : l.token = .name name)
    (hfinish : ctx.finish.token = .mark .sourceEnd)
    (h : readAssignment ctx name rest = ⟨⟨[], .ok s⟩, k⟩) :
    s.Yields .wide ctx (l :: rest.take k) := by
  unfold readAssignment at h
  simp only at h
  split at h
  · next hmet =>
    rcases rest with _ | ⟨o, ts⟩
    · simp [hfinish] at hmet
    obtain ⟨m, hmap, rfl⟩ := Parsed.after_eq_ok.mp h
    obtain ⟨value, hlift, rfl⟩ := Parsed.map_eq_ok.mp hmap
    have hvalue := (Expr.gives_read ts).of_ok (lift_eq_ok.mp hlift).2
    rw [Nat.add_comm, List.take_succ_cons]
    exact .assign hl hmet hvalue
  · simp at h

lemma yields_of_readVariable {s : Statement} {m : Mark} {make : Option String → Statement}
    (hl : l.token = .mark m) (hm : m.waits? = some make)
    (h : readVariable make rest = ⟨⟨[], .ok s⟩, k⟩) : s.Yields .wide ctx (l :: rest.take k) := by
  rcases rest with _ | ⟨o, ts⟩
  · obtain ⟨rfl, rfl⟩ : make none = s ∧ 0 = k := by
      simpa [readVariable, Outcome.pure, eq_comm] using h
    exact .wait hl hm
  · simp only [readVariable] at h
    split at h
    · next name ho =>
      obtain ⟨rfl, rfl⟩ : make (some name) = s ∧ 1 = k := by simpa [Outcome.pure] using h
      exact .waitFor hl hm ho
    · obtain ⟨rfl, rfl⟩ : make none = s ∧ 0 = k := by simpa [Outcome.pure] using h
      exact .wait hl hm

lemma yields_of_alone {s t : Statement} {m : Mark} (hl : l.token = .mark m)
    (hm : m.alone? = some t) (h : (⟨.pure t, 1⟩ : Parsed Refusal Statement) = ⟨⟨[], .ok s⟩, k⟩) :
    s.Yields .wide ctx ((l :: rest).take k) := by
  obtain ⟨rfl, rfl⟩ : t = s ∧ 1 = k := by simpa [Outcome.pure] using h
  exact .alone hl hm

lemma yields_of_readSimple {s : Statement} (hfinish : ctx.finish.token = .mark .sourceEnd)
    (h : readSimple ctx l rest = ⟨⟨[], .ok s⟩, k⟩) : s.Yields .wide ctx ((l :: rest).take k) := by
  unfold readSimple at h
  split at h
  · -- an assignment
    next name hl =>
    obtain ⟨m, hassign, rfl⟩ := Parsed.after_eq_ok.mp h
    rw [Nat.add_comm, List.take_succ_cons]
    exact yields_of_readAssignment hl hfinish hassign
  · -- a payload
    next carrier text hl =>
    obtain ⟨hpayload, rfl⟩ : readPayload ctx l carrier text.toList = ⟨[], .ok s⟩ ∧ 1 = k := by
      simpa using h
    exact .payload hl (Carrier.makes_of_readPayload hpayload) hpayload
  · next hl => exact yields_of_alone hl rfl h
  · next hl => exact yields_of_alone hl rfl h
  · next hl => exact yields_of_alone hl rfl h
  · next hl => exact yields_of_alone hl rfl h
  · -- input into a variable
    next hl =>
    obtain ⟨m, hvariable, rfl⟩ := Parsed.after_eq_ok.mp h
    rw [Nat.add_comm, List.take_succ_cons]
    exact yields_of_readVariable hl rfl hvariable
  · -- a pressed key into a variable
    next hl =>
    obtain ⟨m, hvariable, rfl⟩ := Parsed.after_eq_ok.mp h
    rw [Nat.add_comm, List.take_succ_cons]
    exact yields_of_readVariable hl rfl hvariable
  · -- a delay
    next hl =>
    obtain ⟨m, hmap, rfl⟩ := Parsed.after_eq_ok.mp h
    obtain ⟨duration, hlift, rfl⟩ := Parsed.map_eq_ok.mp hmap
    rw [Nat.add_comm, List.take_succ_cons]
    exact .pause hl ((NumberExpr.gives_read rest).of_ok (lift_eq_ok.mp hlift).2)
  · simp [Outcome.fail] at h

/-! ### Conditionals and chains -/

/-- Where reading the list succeeds without a report, the statement yields what was taken. -/
def ReadsYield (ctx : Context) (ts : List Lexeme) : Prop :=
  ∀ s k, read ctx ts = ⟨⟨[], .ok s⟩, k⟩ → s.Yields .wide ctx (ts.take k)

/-- Where reading a chain succeeds without a report, its statements yield what was taken. -/
def ChainsYield (ctx : Context) (ts : List Lexeme) : Prop :=
  ∀ chain k, readChain ctx ts = ⟨⟨[], .ok chain⟩, k⟩ → YieldsChain .wide ctx chain (ts.take k)

lemma yields_of_readGroup {line : Nat} {branch : Group} (hchain : ChainsYield ctx ts)
    (h : readGroup ctx line ts = ⟨⟨[], .ok branch⟩, k⟩) :
    ∃ chain, branch = ⟨chain, line⟩ ∧ YieldsChain .wide ctx chain (ts.take k) := by
  rw [readGroup] at h
  obtain ⟨chain, hread, rfl⟩ := Parsed.map_eq_ok.mp h
  exact ⟨chain, rfl, hchain chain k hread⟩

lemma yields_of_readConditional {s : Statement} (hl : l.token = .mark .ifWord)
    (hchains : ∀ n, ChainsYield ctx (rest.drop (n + 1)))
    (h : readConditional ctx l.start.line rest = ⟨⟨[], .ok s⟩, k⟩) :
    s.Yields .wide ctx (l :: rest.take k) := by
  obtain ⟨condition, i, thenGroup, first, n, hread, hthen, hbranch, hend⟩ :=
    readConditional_eq_ok h
  have hcondition := (BoolExpr.gives_read rest).of_ok hread
  obtain ⟨t, us, hus, ht⟩ := exists_of_startsWith hthen
  obtain rfl : rest.drop (i + 1) = us := by
    rw [← List.drop_drop, hus, List.drop_one, List.tail_cons]
  rcases hend with ⟨rfl, hnil, rfl, -⟩ | ⟨elseGroup, later, m, helse, hsecond, rfl, hnil, rfl⟩
  · -- without `else`
    obtain ⟨chain, rfl, hchain⟩ := yields_of_readGroup (hchains i) (hnil ▸ hbranch)
    rw [take_of_drop_eq hus]
    exact .conditional hl hcondition ht hchain
  · -- with `else`
    obtain ⟨rfl, rfl⟩ : first = [] ∧ later = [] := by simpa using hnil.symm
    obtain ⟨chain, rfl, hchain⟩ := yields_of_readGroup (hchains i) hbranch
    obtain ⟨other, rfl, hother⟩ := yields_of_readGroup (hchains (i + 1 + n)) hsecond
    obtain ⟨e, vs, hvs, he⟩ := exists_of_startsWith helse
    obtain rfl : rest.drop (i + 1 + n + 1) = vs := by
      rw [← List.drop_drop, hvs, List.drop_one, List.tail_cons]
    rw [take_of_drop_eq hvs, take_of_drop_eq hus, List.append_assoc, List.cons_append]
    exact .either hl hcondition ht hchain he hother

lemma readsYield (hfinish : ctx.finish.token = .mark .sourceEnd)
    (hchains : ∀ us : List Lexeme, us.length < ts.length → ChainsYield ctx us) :
    ReadsYield ctx ts := by
  intro s k h
  rcases ts with _ | ⟨l, rest⟩
  · simp [read, Outcome.fail] at h
  rw [read] at h
  split at h
  · next hl =>
    obtain ⟨m, hconditional, rfl⟩ := Parsed.after_eq_ok.mp h
    rw [Nat.add_comm, List.take_succ_cons]
    refine yields_of_readConditional hl (fun n => hchains _ ?_) hconditional
    simp only [List.length_drop, List.length_cons]
    omega
  · exact yields_of_readSimple hfinish h

lemma chainsYield (hread : ReadsYield ctx ts)
    (hchains : ∀ us : List Lexeme, us.length < ts.length → ChainsYield ctx us) :
    ChainsYield ctx ts := by
  intro chain k h
  obtain ⟨s, first, i, hs,
    ⟨rfl, rfl, rfl, -⟩ | ⟨tail, later, m, hcontinues, htail, rfl, hnil, rfl⟩⟩ := readChain_eq_ok h
  · exact .single (hread s k hs)
  · obtain ⟨rfl, rfl⟩ : first = [] ∧ later = [] := by simpa using hnil.symm
    obtain ⟨a, us, hus, ha⟩ := exists_of_startsWith (Group.startsWith_of_continues hcontinues)
    obtain rfl : ts.drop (i + 1) = us := by
      rw [← List.drop_drop, hus, List.drop_one, List.tail_cons]
    have hlt : (ts.drop (i + 1)).length < ts.length := by
      have := congrArg List.length hus
      simp only [List.length_drop, List.length_cons] at this ⊢
      omega
    rw [take_of_drop_eq hus]
    exact .cons (hread s i hs) ha (hchains _ hlt tail m htail)

/-- Where a statement is read without a report, it yields what was taken. -/
theorem yields_of_read {s : Statement} (hfinish : ctx.finish.token = .mark .sourceEnd)
    (h : read ctx ts = ⟨⟨[], .ok s⟩, k⟩) : s.Yields .wide ctx (ts.take k) := by
  have hall (us : List Lexeme) : ReadsYield ctx us ∧ ChainsYield ctx us := by
    induction hn : us.length using Nat.strongRecOn generalizing us with
    | ind n ih =>
    have hchains (vs : List Lexeme) (hvs : vs.length < us.length) : ChainsYield ctx vs :=
      (ih vs.length (hn ▸ hvs) vs rfl).2
    have hread := readsYield hfinish hchains
    exact ⟨hread, chainsYield hread hchains⟩
  exact (hall ts).1 s k h

lemma ne_nil_of_yields {layout : BoolExpr.Layout} {s : Statement}
    (h : s.Yields layout ctx ts) : ts ≠ [] := by
  cases h <;> simp

lemma ne_nil_of_yieldsChain {layout : BoolExpr.Layout} {chain : List Statement}
    (h : YieldsChain layout ctx chain ts) : chain ≠ [] ∧ ts ≠ [] := by
  cases h with
  | single h => exact ⟨by simp, ne_nil_of_yields h⟩
  | cons h hl hchain => simp

end Statement

/-! ### Lines and programs -/

namespace Group

open Statement (startsWith continues)

lemma ne_nil_of_yieldsLine {layout : BoolExpr.Layout} {statements : List Statement}
    (h : YieldsLine layout ctx statements ts) : statements ≠ [] ∧ ts ≠ [] := by
  cases h with
  | chain h => exact Statement.ne_nil_of_yieldsChain h
  | trailing h hl => exact ⟨(Statement.ne_nil_of_yieldsChain h).1, by simp⟩

lemma YieldsLine.cons {layout : BoolExpr.Layout} {s : Statement} {line : List Statement}
    {us : List Lexeme} (hs : s.Yields layout ctx ts) (hl : l.token = .mark .ampersand)
    (h : YieldsLine layout ctx line us) : YieldsLine layout ctx (s :: line) (ts ++ l :: us) := by
  cases h with
  | chain hchain => exact .chain (.cons hs hl hchain)
  | trailing hchain ho =>
    rw [← List.cons_append, ← List.append_assoc]
    exact .trailing (.cons hs hl hchain) ho

lemma yields_of_readRest {behind : List Lexeme} {s : Statement} {later : List Statement} {n : Nat}
    (hs : s.Yields .wide ctx ts) (hend : ∀ o ∈ behind.head?, o.endsStatement = true)
    (hline : ∀ o us, behind = o :: us → us ≠ [] → ∀ more m,
      readLine ctx us = ⟨⟨[], .ok more⟩, m⟩ →
        YieldsLine .wide ctx more (us.take m) ∧ ∀ o ∈ (us.drop m).head?, o.token = .mark .lineBreak)
    (h : readRest ctx behind = ⟨⟨[], .ok later⟩, n⟩) :
    YieldsLine .wide ctx (s :: later) (ts ++ behind.take n) ∧
      ∀ o ∈ (behind.drop n).head?, o.token = .mark .lineBreak := by
  rw [readRest, restBy] at h
  simp only [statementLength_of_endsStatement hend, List.drop_zero, Nat.zero_add] at h
  split at h
  · -- the line goes on behind an ampersand
    next hcontinues =>
    obtain ⟨o, us, rfl, ho⟩ := Statement.exists_of_startsWith (startsWith_of_continues hcontinues)
    obtain ⟨m, hread, rfl⟩ := Parsed.after_eq_ok.mp h
    have hne : us ≠ [] := by
      rintro rfl
      simp [continues] at hcontinues
    obtain ⟨hyields, hbreak⟩ := hline o us rfl hne later m hread
    rw [Nat.add_comm, List.take_succ_cons, List.drop_succ_cons]
    exact ⟨.cons hs ho hyields, hbreak⟩
  · -- it ends here, perhaps with an ampersand
    next hcontinues =>
    split at h
    · next hampersand =>
      obtain ⟨o, us, rfl, ho⟩ := Statement.exists_of_startsWith hampersand
      obtain ⟨rfl, rfl⟩ : [] = later ∧ 1 = n := by simpa [Outcome.pure] using h
      refine ⟨.trailing (.single hs) ho, fun e he => ?_⟩
      rcases us with _ | ⟨e', more⟩
      · simp at he
      · obtain rfl : e' = e := by simpa using he
        simpa [continues, startsWith, ho] using hcontinues
    · next hampersand =>
      obtain ⟨rfl, rfl⟩ : [] = later ∧ 0 = n := by simpa [Outcome.pure] using h
      refine ⟨by simpa using .chain (.single hs), fun e he => ?_⟩
      rcases behind with _ | ⟨e', more⟩
      · simp at he
      · obtain rfl : e' = e := by simpa using he
        have hends : e'.token = .mark .ampersand ∨ e'.token = .mark .lineBreak := by
          simpa [Lexeme.endsStatement] using hend e' (by simp)
        exact hends.resolve_left (by simpa [startsWith] using hampersand)

/-- Where a line is read without a report, its statements yield what was taken, and it ends at a
line break or with the source. -/
theorem yields_of_readLine {statements : List Statement}
    (hfinish : ctx.finish.token = .mark .sourceEnd)
    (h : readLine ctx (l :: rest) = ⟨⟨[], .ok statements⟩, k⟩) :
    YieldsLine .wide ctx statements ((l :: rest).take k) ∧
      ∀ o ∈ ((l :: rest).drop k).head?, o.token = .mark .lineBreak := by
  induction hn : rest.length using Nat.strongRecOn generalizing l rest statements k with
  | ind n ih =>
  rcases hread : Statement.read ctx (l :: rest) with ⟨⟨first, (report | cause) | s⟩, i⟩
  · -- a broken statement is reported, and nothing was
    by_cases hl : l.token = .mark .ifWord
    · simp [readLine_of_dropped_if hl hread] at h
    · simp [readLine_of_dropped hl hread, Outcome.after] at h
  · simp [readLine_of_aborted hread] at h
  · -- nothing is left over, so the rest begins at a separator or is empty
    rw [readLine_of_ok hread] at h
    rcases hmore : readRest ctx ((l :: rest).drop i) with ⟨⟨more, _ | later⟩, n⟩
    · simp [hmore, Outcome.map, Outcome.after, Except.map] at h
    obtain ⟨⟨⟨rfl, htrailing, rfl⟩, rfl⟩, rfl⟩ : ((first = [] ∧
        trailing ctx ((l :: rest).drop i) = [] ∧ more = []) ∧ s :: later = statements) ∧
        i + n = k := by
      simpa [hmore, Outcome.map, Outcome.after, Except.map, and_assoc] using h
    have hs := Statement.yields_of_read hfinish hread
    rw [List.take_add, ← List.drop_drop]
    refine yields_of_readRest hs (endsStatement_of_trailing htrailing) ?_ hmore
    rintro o (_ | ⟨l', rest'⟩) hdrop hne more m hline
    · exact absurd rfl hne
    refine ih rest'.length ?_ hline rfl
    have := congrArg List.length hdrop
    simp only [List.length_drop, List.length_cons] at this
    omega

end Group

namespace Program

lemma yields_of_readGroups {groups : List Group} (hfinish : ctx.finish.token = .mark .sourceEnd)
    (h : (readGroupsBy (Group.readLine ctx) ts).outcome = ⟨[], .ok groups⟩) :
    YieldsGroups .wide ctx groups ts := by
  induction hn : ts.length using Nat.strongRecOn generalizing ts groups with
  | ind n ih =>
  rcases ts with _ | ⟨l, rest⟩
  · obtain rfl : [] = groups := by simpa [readGroupsBy, Parsed.pure, Outcome.pure] using h
    exact .nil
  rw [readGroupsBy] at h
  split at h
  · next hl => exact .lineBreak hl (ih rest.length (by simp [← hn]) h rfl)
  rcases hline : Group.readLine ctx (l :: rest) with ⟨⟨made, cause | statements⟩, k⟩
  · simp [hline, Parsed.result] at h
  simp only [hline, Parsed.result, Parsed.reports] at h
  rcases hlater : (readGroupsBy (Group.readLine ctx) (rest.drop (k - 1))).outcome with
    ⟨more, _ | later⟩
  · simp [hlater, Outcome.map, Outcome.after, Except.map] at h
  obtain ⟨⟨rfl, rfl⟩, rfl⟩ : (made = [] ∧ more = []) ∧
      groupOfLine l.start.line statements ++ later = groups := by
    simpa [hlater, Outcome.map, Outcome.after, Except.map] using h
  obtain ⟨hyields, hbreak⟩ := Group.yields_of_readLine hfinish hline
  obtain ⟨hsome, htaken⟩ := Group.ne_nil_of_yieldsLine hyields
  -- a line that yields statements takes at least one lexeme
  obtain ⟨m, rfl⟩ : ∃ m, k = m + 1 := by
    refine Nat.exists_eq_succ_of_ne_zero fun hzero => ?_
    simp [hzero] at htaken
  have hgroups := ih _ (by simp only [List.length_drop, ← hn, List.length_cons]; omega) hlater rfl
  rw [Nat.add_sub_cancel] at hgroups
  rw [List.take_succ_cons] at hyields
  rw [List.drop_succ_cons] at hbreak
  rw [groupOfLine, if_neg (by simpa using hsome)]
  rw [← List.take_append_drop m rest]
  exact .line hyields hbreak hgroups

/-- **What is read without a report is derived.** The program yields all lexemes of the list. -/
theorem yields_of_read {p : Program} (hfinish : ctx.finish.token = .mark .sourceEnd)
    (h : (read ctx ts).outcome = ⟨[], .ok p⟩) : p.Yields .wide ctx ts := by
  obtain ⟨groups, hgroups, rfl⟩ := Outcome.map_eq_ok.mp h
  exact yields_of_readGroups hfinish (readGroups_eq ctx ts ▸ hgroups)

end Program

end QuestScript
