import QuestScript.Proofs.Expr.RoundTrip
import QuestScript.Proofs.Program.Origin
import QuestScript.Proofs.Token.Passing

/-!
Blocks of jumps and conditionals on one line.

A jump takes the rest of its statement as text, so the scanner has to know where a branch ends: it
counts the `if`s of the line that wait for their `else`. Behind a block it has counted one more for
every `if` without an `else` on the right spine of the block (`Block.passes_write`). So an `else`
behind a block in which nothing waits belongs to the `if` in front of the block, as it does for the
reader of statements (`Block.readChain_spell`). On a block the two agree, however it is nested and
wherever it is chained (`parse_write`).
-/

namespace QuestScript

open Lexeme (Spell)
open Statement (startsWith continues)

/-- Jumps joined by ampersands, the last of which may be a conditional instead. -/
inductive Block
  | jump (target : String)
  | chain (target : String) (rest : Block)
  | whenever (name : String) (body : Block)
  | either (name : String) (body other : Block)
  deriving DecidableEq, Repr

namespace Block

/-- The block on one line. -/
def write : Block → String
  | jump target => "goto " ++ target
  | chain target rest => "goto " ++ target ++ " & " ++ rest.write
  | whenever name body => "if " ++ name ++ " then " ++ body.write
  | either name body other => "if " ++ name ++ " then " ++ body.write ++ " else " ++ other.write

/-- The statements that the block is, on the given line. -/
def statements (line : Nat) : Block → List Statement
  | jump target => [.goto target]
  | chain target rest => .goto target :: rest.statements line
  | whenever name body => [.conditional (.var name) ⟨body.statements line, line⟩ none]
  | either name body other =>
    [.conditional (.var name) ⟨body.statements line, line⟩ (some ⟨other.statements line, line⟩)]

/-- How many `if`s on the right spine of the block have no `else`. -/
def waiting : Block → Nat
  | jump _ => 0
  | chain _ rest => rest.waiting
  | whenever _ body => body.waiting + 1
  | either _ _ other => other.waiting

/-- Behind `if`, the text is read as one name. -/
def IsName (name : String) : Prop :=
  (tokenize ("if " ++ name)).1.map Lexeme.token = [.mark .ifWord, .name name, .mark .sourceEnd]

instance (name : String) : Decidable (IsName name) :=
  inferInstanceAs (Decidable ((tokenize ("if " ++ name)).1.map Lexeme.token = _))

/-- Names are read as names, targets are whole payloads, and no `if` waits for an `else` at the end
of a branch that an `else` follows. -/
def WellFormed : Block → Prop
  | jump target => Payload.IsWhole target.toList
  | chain target rest => Payload.IsWhole target.toList ∧ rest.WellFormed
  | whenever name body => IsName name ∧ body.WellFormed
  | either name body other =>
    IsName name ∧ body.WellFormed ∧ body.waiting = 0 ∧ other.WellFormed

instance decidableWellFormed : (b : Block) → Decidable b.WellFormed
  | jump target => inferInstanceAs (Decidable (Payload.IsWhole target.toList))
  | chain target rest =>
    have := decidableWellFormed rest
    inferInstanceAs (Decidable (Payload.IsWhole target.toList ∧ rest.WellFormed))
  | whenever name body =>
    have := decidableWellFormed body
    inferInstanceAs (Decidable (IsName name ∧ body.WellFormed))
  | either name body other =>
    have := decidableWellFormed body
    have := decidableWellFormed other
    inferInstanceAs
      (Decidable (IsName name ∧ body.WellFormed ∧ body.waiting = 0 ∧ other.WellFormed))

/-- The tokens of the block. -/
def tokens : Block → List Token
  | jump target => [.payload .goto target]
  | chain target rest => .payload .goto target :: .mark .ampersand :: rest.tokens
  | whenever name body => .mark .ifWord :: .name name :: .mark .thenWord :: body.tokens
  | either name body other =>
    .mark .ifWord :: .name name :: .mark .thenWord ::
      (body.tokens ++ .mark .elseWord :: other.tokens)

lemma statements_ne_nil (line : Nat) (b : Block) : b.statements line ≠ [] := by
  cases b <;> simp [statements]

lemma tokens_ne_nil (b : Block) : b.tokens ≠ [] := by
  cases b <;> simp [tokens]

lemma forall_tokens (b : Block) :
    ∀ t ∈ b.tokens, t ≠ .mark .lineBreak ∧ t ≠ .mark .sourceEnd := by
  induction b with
  | jump target => simp [tokens]
  | chain target rest ih => simpa [tokens] using ih
  | whenever name body ih => simpa [tokens] using ih
  | either name body other ihbody ihother =>
    have hboth := Token.forall_mem_between ihbody (t := .mark .elseWord) ⟨by simp, by simp⟩ ihother
    simpa [tokens] using hboth

/-! ### From text to tokens -/

variable {mode : Mode} {back : List Char}

lemma passes_if : Scan.Passes mode ("if ".toList ++ back) [.mark .ifWord]
    ⟨false, false, mode.openIfs + 1⟩ back :=
  Scan.passes_mark mode "if".toList back (by decide +kernel) (by decide +kernel) (by decide)

lemma passes_then : Scan.Passes mode ("then ".toList ++ back) [.mark .thenWord]
    ⟨false, true, mode.openIfs⟩ back :=
  Scan.passes_mark mode "then".toList back (by decide +kernel) (by decide +kernel) (by decide)

lemma passes_else : Scan.Passes mode ("else ".toList ++ back) [.mark .elseWord]
    ⟨false, true, mode.openIfs - 1⟩ back :=
  Scan.passes_mark mode "else".toList back (by decide +kernel) (by decide +kernel) (by decide)

lemma IsName.isName {name : String} (h : IsName name) : Scan.IsName name.toList := by
  have hmem : Token.name name ∈ (tokenize ("if " ++ name)).1.map Lexeme.token := by
    rw [IsName] at h
    simp [h]
  obtain ⟨l, hl, htoken⟩ := List.mem_map.mp hmem
  exact Scan.isName_of_mem_lexemes hl htoken

/-- What may stand behind a block: nothing, or the `else` that an `if` in front of it waits for. -/
def Continues (openIfs waiting : Nat) (back : List Char) : Prop :=
  back = [] ∨ waiting = 0 ∧ 0 < openIfs ∧ ∃ other, back = ' ' :: ("else ".toList ++ other)

lemma Continues.endsAt {mode : Mode} {waiting : Nat} {back : List Char}
    (h : Continues mode.openIfs waiting back) :
    ∃ stop, Payload.EndsAt mode.elseEnds back stop := by
  rcases h with rfl | ⟨-, hopen, other, rfl⟩
  · exact ⟨_, .lineEnd⟩
  · have hstarts : Payload.startsElse ("else".toList ++ ' ' :: other) = true := by
      rw [Payload.startsElse_append _ (by simp [Text.isWordChar_space])]
      rfl
    exact ⟨_, .elseWord (by simpa [Mode.elseEnds] using hopen) hstarts⟩

lemma passes_goto {target : String} {stop : Payload.Stop}
    (htarget : Payload.IsWhole target.toList) (hback : Payload.EndsAt mode.elseEnds back stop) :
    Scan.Passes mode ("goto ".toList ++ (target.toList ++ back)) [.payload .goto target]
      ⟨false, false, mode.openIfs⟩ back.tail := by
  have hkey : Keyword.ofWord? "goto".toList = some (.carrier .goto) := by decide +kernel
  have hpasses := Scan.passes_carrier mode "goto".toList (by decide +kernel) hkey (by decide)
    htarget hback
  rwa [String.ofList_toList] at hpasses

lemma passes_head {name : String} (hname : Scan.IsName name.toList) :
    Scan.Passes mode ("if ".toList ++ (name.toList ++ (" then ".toList ++ back)))
      [.mark .ifWord, .name name, .mark .thenWord] ⟨false, true, mode.openIfs + 1⟩ back := by
  have hmiddle := Scan.passes_name ⟨false, false, mode.openIfs + 1⟩ ("then ".toList ++ back) hname
    rfl rfl
  rw [String.ofList_toList] at hmiddle
  exact passes_if.trans (hmiddle.trans passes_then)

/-- **The scanner counts the `if`s that wait.** A block is passed up to what stands behind it, and
the scanner has then counted one more for every `if` on the right spine of the block that has no
`else`. -/
theorem passes_write {b : Block} (hb : b.WellFormed) (mode : Mode) (back : List Char)
    (hback : Continues mode.openIfs b.waiting back) :
    ∃ later, later.openIfs = mode.openIfs + b.waiting ∧
      Scan.Passes mode (b.write.toList ++ back) b.tokens later back.tail := by
  induction b generalizing mode back with
  | jump target =>
    obtain ⟨stop, hstop⟩ := hback.endsAt
    have hgoto := passes_goto hb hstop
    rw [← List.append_assoc, ← String.toList_append] at hgoto
    exact ⟨⟨false, false, mode.openIfs⟩, rfl, hgoto⟩
  | chain target rest ih =>
    obtain ⟨htarget, hrest⟩ := hb
    have hgoto : Scan.Passes mode _ _ _ _ :=
      passes_goto htarget (.ampersand (' ' :: (rest.write.toList ++ back)))
    obtain ⟨later, hopen, hlater⟩ := ih hrest ⟨false, true, mode.openIfs⟩ back hback
    refine ⟨later, hopen, ?_⟩
    have hall := hgoto.trans ((Scan.passes_ampersand _ _).trans hlater)
    simpa [write, tokens] using hall
  | whenever name body ih =>
    obtain ⟨hname, hbody⟩ := hb
    -- the `if` waits itself, so no `else` follows
    obtain rfl : back = [] := hback.resolve_right fun h => by simp [waiting] at h
    obtain ⟨later, hopen, hlater⟩ := ih hbody ⟨false, true, mode.openIfs + 1⟩ [] (.inl rfl)
    refine ⟨later, by simp only [hopen, waiting]; omega, ?_⟩
    have hall : Scan.Passes mode _ _ _ _ :=
      (passes_head hname.isName).trans hlater
    simpa [write, tokens] using hall
  | either name body other ihbody ihother =>
    obtain ⟨hname, hbody, hclosed, hother⟩ := hb
    have helse : Continues (mode.openIfs + 1) body.waiting
        (' ' :: ("else ".toList ++ (other.write.toList ++ back))) :=
      .inr ⟨hclosed, by omega, _, rfl⟩
    obtain ⟨middle, hmiddle, hfirst⟩ := ihbody hbody ⟨false, true, mode.openIfs + 1⟩ _ helse
    -- nothing waits in the first branch, so the `else` is for the `if` in front of it
    have hcount : middle.openIfs - 1 = mode.openIfs := by
      rw [hmiddle, hclosed]
      rfl
    obtain ⟨later, hopen, hsecond⟩ := ihother hother ⟨false, true, middle.openIfs - 1⟩ back
      (by rw [hcount]; exact hback)
    refine ⟨later, by rw [hopen, hcount]; rfl, ?_⟩
    have hall : Scan.Passes mode _ _ _ _ :=
      (passes_head hname.isName).trans (hfirst.trans (passes_else.trans hsecond))
    simpa [write, tokens] using hall

/-! ### From tokens to statements -/

variable {ctx : Context} {ls rest : List Lexeme} {line : Nat}

lemma read_goto {l : Lexeme} {target : String} (rest : List Lexeme)
    (htarget : Payload.IsWhole target.toList) (hl : l.token = .payload .goto target) :
    Statement.read ctx (l :: rest) = ⟨⟨[], .ok (.goto target)⟩, 1⟩ := by
  rw [Statement.read_payload rest hl, Statement.readPayload, requiredName, htarget.trim_eq]
  simp [htarget.ne_nil, Outcome.pure, Outcome.map, Except.map]

lemma read_name {n t : Lexeme} {name : String} (rest : List Lexeme) (hn : n.token = .name name)
    (ht : t.token = .mark .thenWord) :
    BoolExpr.read (n :: t :: rest) = ⟨.ok (.var name), 1⟩ := by
  have hspell : Spell [n] ((BoolExpr.var name).tokens 3) := by simp [Spell, BoolExpr.tokens, hn]
  exact BoolExpr.read_spell ⟨le_refl 3, by omega⟩ (.var name) (t :: rest) trivial hspell
    (by simp [BoolExpr.Free, ht, Token.endsCondition])
    (by simp [ht, Token.isLogical, Expr.isLogical])

/-- Behind a block, nothing or an `else` follows. -/
def Stops (waiting : Nat) (rest : List Lexeme) : Prop :=
  rest = [] ∨ waiting = 0 ∧ startsWith .elseWord rest = true

lemma Stops.not_continues {waiting : Nat} (h : Stops waiting rest) : continues rest = false := by
  rcases h with rfl | ⟨-, helse⟩
  · rfl
  · obtain ⟨l, rest, rfl, hl⟩ := Statement.exists_of_startsWith helse
    simp [continues, startsWith, hl]

lemma continues_of_spell {b : Block} {a : Lexeme} (rest : List Lexeme)
    (ha : a.token = .mark .ampersand) (hls : Spell ls b.tokens) :
    continues (a :: (ls ++ rest)) = true := by
  rcases htokens : b.tokens with _ | ⟨t, ts⟩
  · exact absurd htokens b.tokens_ne_nil
  · rw [htokens] at hls
    obtain ⟨l, ls, rfl, hl, -⟩ := hls.cons
    have hbreak : t ≠ .mark .lineBreak := (b.forall_tokens t (by simp [htokens])).1
    simp [continues, startsWith, ha, hl, hbreak]

variable {l n t e : Lexeme} {name : String} {body other : List Statement}

lemma read_whenever (hl : l.token = .mark .ifWord) (hn : n.token = .name name)
    (ht : t.token = .mark .thenWord)
    (hbody : Statement.readChain ctx ls = ⟨⟨[], .ok body⟩, ls.length⟩) :
    Statement.read ctx (l :: n :: t :: ls) =
      ⟨⟨[], .ok (.conditional (.var name) ⟨body, l.start.line⟩ none)⟩, ls.length + 3⟩ := by
  have hend : startsWith .elseWord ((n :: t :: ls).drop (1 + 1 + ls.length)) = false := by
    rw [List.drop_eq_nil_of_le (by simp only [List.length_cons]; omega)]
    rfl
  rw [Statement.read, if_pos hl, Statement.readConditional_of_then (read_name ls hn ht)
    (by simp [startsWith, ht]) (Statement.readGroup_of_readChain hbody) hend]
  simp only [Parsed.after, Parsed.mk.injEq, true_and]
  omega

lemma read_either {as bs : List Lexeme} (hl : l.token = .mark .ifWord) (hn : n.token = .name name)
    (ht : t.token = .mark .thenWord) (he : e.token = .mark .elseWord)
    (hbody : Statement.readChain ctx (as ++ e :: (bs ++ rest)) = ⟨⟨[], .ok body⟩, as.length⟩)
    (hother : Statement.readChain ctx (bs ++ rest) = ⟨⟨[], .ok other⟩, bs.length⟩) :
    Statement.read ctx (l :: n :: t :: (as ++ e :: (bs ++ rest))) =
      ⟨⟨[], .ok (.conditional (.var name) ⟨body, l.start.line⟩ (some ⟨other, l.start.line⟩))⟩,
        as.length + bs.length + 4⟩ := by
  have hdrop : (n :: t :: (as ++ e :: (bs ++ rest))).drop (1 + 1 + as.length) =
      e :: (bs ++ rest) := by
    rw [← List.drop_drop]
    exact List.drop_left
  have hmore : (n :: t :: (as ++ e :: (bs ++ rest))).drop (1 + 1 + as.length + 1) = bs ++ rest := by
    rw [← List.drop_drop, hdrop, List.drop_one, List.tail_cons]
  rw [Statement.read, if_pos hl, Statement.readConditional_of_else (read_name _ hn ht)
    (by simp [startsWith, ht]) (Statement.readGroup_of_readChain hbody)
    (by simp [hdrop, startsWith, he])
    (by rw [hmore]; exact Statement.readGroup_of_readChain hother)]
  simp only [Parsed.after, List.append_nil, Parsed.mk.injEq, true_and]
  omega

/-- **The reader of statements takes a block as it nests.** Its tokens are read as its statements,
up to what stands behind them. -/
theorem readChain_spell {b : Block} (hb : b.WellFormed) (hls : Spell ls b.tokens)
    (hlines : ∀ l ∈ ls, l.start.line = line) (hrest : Stops b.waiting rest) :
    Statement.readChain ctx (ls ++ rest) = ⟨⟨[], .ok (b.statements line)⟩, ls.length⟩ := by
  induction b generalizing ls rest with
  | jump target =>
    obtain ⟨l, rfl, hl⟩ := hls.single
    exact Statement.readChain_of_last (read_goto rest hb hl) hrest.not_continues
  | chain target tail ih =>
    obtain ⟨htarget, htail⟩ := hb
    obtain ⟨l, ls, rfl, hl, hls⟩ := Spell.cons hls
    obtain ⟨a, ls, rfl, ha, hls⟩ := Spell.cons hls
    have hread := Statement.readChain_of_continues (read_goto _ htarget hl)
      (continues_of_spell rest ha hls) (ih htail hls (fun l hl => hlines l (by simp [hl])) hrest)
    rw [List.cons_append, List.cons_append, hread]
    simp only [statements, List.append_nil, List.length_cons, Parsed.mk.injEq, true_and]
    omega
  | whenever name body ih =>
    obtain ⟨-, hbody⟩ := hb
    -- the `if` waits itself, so no `else` follows
    obtain rfl : rest = [] := hrest.resolve_right fun h => by simp [waiting] at h
    obtain ⟨l, ls, rfl, hl, hls⟩ := Spell.cons hls
    obtain ⟨n, ls, rfl, hn, hls⟩ := Spell.cons hls
    obtain ⟨t, ls, rfl, ht, hls⟩ := Spell.cons hls
    have hbranch := ih hbody hls (fun l hl => hlines l (by simp [hl])) (.inl rfl)
    rw [List.append_nil] at hbranch ⊢
    have hread := read_whenever hl hn ht hbranch
    rw [hlines l (by simp)] at hread
    exact Statement.readChain_of_last hread (by simp [continues, startsWith])
  | either name body other ihbody ihother =>
    obtain ⟨-, hbody, hclosed, hother⟩ := hb
    obtain ⟨l, ls, rfl, hl, hls⟩ := Spell.cons hls
    obtain ⟨n, ls, rfl, hn, hls⟩ := Spell.cons hls
    obtain ⟨t, ls, rfl, ht, hls⟩ := Spell.cons hls
    obtain ⟨as, e, bs, rfl, has, he, hbs⟩ := Spell.between hls
    -- the first branch ends at the `else`, for nothing waits in it
    have hstops : Stops body.waiting (e :: (bs ++ rest)) :=
      .inr ⟨hclosed, by simp [startsWith, he]⟩
    have hfirst := ihbody hbody has (fun l hl => hlines l (by simp [hl])) hstops
    have hsecond := ihother hother hbs (fun l hl => hlines l (by simp [hl])) hrest
    have hread := read_either hl hn ht he hfirst hsecond
    rw [hlines l (by simp)] at hread
    -- what both branches take is what is in front of the rest
    have hlist : l :: n :: t :: (as ++ e :: bs) ++ rest =
        l :: n :: t :: (as ++ e :: (bs ++ rest)) := by simp
    have hlength : (l :: n :: t :: (as ++ e :: bs)).length = as.length + bs.length + 4 := by
      simp only [List.length_cons, List.length_append]
      omega
    have hbehind : (l :: n :: t :: (as ++ e :: (bs ++ rest))).drop (as.length + bs.length + 4) =
        rest := by
      rw [← hlength, ← hlist, List.drop_left]
    rw [hlist, hlength]
    exact Statement.readChain_of_last hread (by rw [hbehind]; exact hrest.not_continues)

/-! ### Whole sources -/

lemma tokenize_write {b : Block} (hb : b.WellFormed) :
    ∃ ls finish, Lexeme.Spell ls b.tokens ∧ (∀ l ∈ ls, l.start.line = 1) ∧
      finish.token = .mark .sourceEnd ∧ tokenize b.write = (ls ++ [finish], []) := by
  obtain ⟨later, -, hpasses⟩ := passes_write hb .fresh [] (.inl rfl)
  obtain ⟨ls, behind, hls, hlines, -, hread⟩ := hpasses .start
  rw [List.append_nil, List.tail_nil, Scan.read_nil] at hread
  exact ⟨ls, _, hls, hlines, rfl, by rw [tokenize, hread]⟩

lemma program_read {b : Block} {ctx : Context} {ls : List Lexeme} (hb : b.WellFormed)
    (hls : Lexeme.Spell ls b.tokens) (hlines : ∀ l ∈ ls, l.start.line = 1) :
    Program.read ctx ls = ⟨⟨[], .ok ⟨[⟨b.statements 1, 1⟩]⟩⟩, ls.length⟩ := by
  have hchain : Statement.readChain ctx (ls ++ []) = _ := readChain_spell hb hls hlines (.inl rfl)
  rw [List.append_nil] at hchain
  have hline := Group.readLine_of_readChain hchain
  rcases ls with _ | ⟨l, ls⟩
  · exact absurd hls.symm b.tokens_ne_nil
  have hbreak : l.token ≠ .mark .lineBreak := (b.forall_tokens _ (hls.mem (by simp))).1
  rw [Program.read_line hbreak (b.statements_ne_nil 1) hline, hlines l (by simp)]

end Block

/-- **A block is read as it was written.** Its `if`s nest as they do in the block, each with the
`else` that it has there, every jump goes to its whole target, and nothing is reported. -/
theorem parse_write {b : Block} (hb : b.WellFormed) (options : Options) :
    parse b.write options = .ok ⟨⟨[⟨b.statements 1, 1⟩]⟩, []⟩ := by
  obtain ⟨ls, finish, hls, hlines, hfinish, htokens⟩ := Block.tokenize_write hb
  have hend : ∀ l ∈ ls, l.token ≠ .mark .sourceEnd := fun l hl =>
    (b.forall_tokens _ (hls.mem hl)).2
  rw [parse, htokens]
  simp only [Parser.run_of_read hend hfinish fun ctx => Block.program_read hb hls hlines]
  rfl

namespace Sample

/-- A block with chains, a conditional in a first branch, and one without `else` at its end. -/
def block : Block :=
  .chain "a" (.either "x" (.chain "b" (.either "y" (.jump "c") (.jump "d")))
    (.whenever "inv" (.chain "e" (.jump "elsewhere"))))

end Sample

/-- The inner `else` belongs to the inner `if` and the outer one to the outer, behind a chain. -/
theorem parse_write_sample :
    Sample.block.WellFormed ∧
    parse ("goto a & if x then goto b & if y then goto c else goto d else " ++
        "if inv then goto e & goto elsewhere") =
      .ok ⟨⟨[⟨[.goto "a", .conditional (.var "x")
        ⟨[.goto "b", .conditional (.var "y") ⟨[.goto "c"], 1⟩ (some ⟨[.goto "d"], 1⟩)], 1⟩
        (some ⟨[.conditional (.var "inv") ⟨[.goto "e", .goto "elsewhere"], 1⟩ none], 1⟩)], 1⟩]⟩,
        []⟩ := by
  have hwellFormed : Sample.block.WellFormed := by decide +kernel
  have hwrite : Sample.block.write =
      "goto a & if x then goto b & if y then goto c else goto d else " ++
        "if inv then goto e & goto elsewhere" := by decide +kernel
  rw [← hwrite]
  exact ⟨hwellFormed, parse_write hwellFormed {}⟩

end QuestScript
