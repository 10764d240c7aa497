import QuestScript.Print.Writing
import QuestScript.Proofs.Action.Jump
import QuestScript.Proofs.Outcome
import QuestScript.Proofs.Print.Factoring
import QuestScript.Proofs.Print.Meaning

/-!
Written segments are read back.

Writing escapes every character of a literal that could start or end a span, so the spans of the
written text are the written segments, one after the other. Literals are written character by
character and grow together again when they are read, which is why only segments in normal form come
back as they were.
-/

namespace QuestScript

open Text

/-! ### Segments in normal form -/

namespace Segment

/-- Segments as reading makes them: no literal is empty, no literal follows another one, and the
actions of links stand on the given line. -/
def Normal (line : Nat) : List Segment → Prop
  | [] => True
  | literal text :: rest =>
    text ≠ "" ∧ (∀ next ∈ rest.head?, ∀ other, next ≠ literal other) ∧ Normal line rest
  | value _ :: rest => Normal line rest
  | link _ action :: rest => action.line = line ∧ Normal line rest

lemma glue_glue (a b : String) (segments : List Segment) :
    glue (literal a) (glue (literal b) segments) = glue (literal (a ++ b)) segments := by
  rcases segments with _ | ⟨_ | _ | _, rest⟩
  case cons.literal c => simp [glue, String.append_assoc]
  all_goals by_cases hb : b = "" <;> simp [glue, hb]

lemma glue_literal_of_normal {line : Nat} {text : String} {rest : List Segment}
    (h : Normal line (literal text :: rest)) : glue (literal text) rest = literal text :: rest := by
  obtain ⟨hne, hnext, -⟩ := h
  rcases rest with _ | ⟨_ | _ | _, rest⟩
  case cons.literal c => exact absurd rfl (hnext (literal c) rfl c)
  all_goals simp [glue, hne]

end Segment

lemma Group.eq_jump_of_jumpTarget? {g : Group} {target : String}
    (h : g.jumpTarget? = some target) : g = .jump target g.line := by
  obtain ⟨statements, line⟩ := g
  unfold jumpTarget? at h
  split at h <;> simp_all [jump]

/-! ### The spans of a text -/

lemma LinkSpan.isInner_of_forall {inner : List Char} (hne : inner ≠ [])
    (h : ∀ c ∈ inner, c ≠ '\n' ∧ c ≠ ']') : IsInner inner := by
  refine ⟨hne, fun hmem => (h _ hmem).1 rfl, fun hinfix => ?_⟩
  have hnone : inner.tail.count ']' = 0 :=
    List.count_eq_zero.mpr fun hmem => (h _ (List.mem_of_mem_tail hmem)).2 rfl
  have hle := hinfix.sublist.count_le ']'
  rw [List.count_append, hnone] at hle
  simp at hle

namespace Print

namespace Span

lemma ofText_plain {c : Char} (rest : List Char) (hl : c ≠ '[') (hs : c ≠ '#') :
    ofText (c :: rest) = consPlain c (ofText rest) :=
  ofText_of_not_opens (not_opens_iff.mpr ⟨LinkSpan.inner?_of_ne rest hl, by simp [body?, hs]⟩)

end Span

/-! ### Reading what is written -/

section Reading

variable {policy : SubstitutionPolicy} {action : ActionReader} {line : Nat}

lemma Span.decodeAll_consPlain (c : Char) (spans : List Span) (place : Position) :
    decodeAll policy action place (consPlain c spans) =
      (decodeAll policy action (place.right 1) spans).map
        (Segment.glue (.literal (String.ofList [c]))) := by
  rcases spans with _ | ⟨text | _ | _, spans⟩
  case cons.plain =>
    have hplace : (place.right 1).right text.length = place.right (text.length + 1) := by
      rw [Position.right_right, Nat.add_comm]
    have hglue : Segment.glue (.literal (String.ofList (c :: text))) =
        Segment.glue (.literal (String.ofList [c])) ∘
          Segment.glue (.literal (String.ofList text)) := by
      funext segments
      rw [Function.comp_apply, Segment.glue_glue, ← String.ofList_append, List.singleton_append]
    simp only [consPlain, decodeAll, decode, source, Outcome.pure_bind, Outcome.map_map, hplace,
      List.length_cons, hglue]
  all_goals simp [consPlain, decodeAll, decode, source]

/-- The text is read as the given segments wherever it stands on the line. -/
def ReadsAs (policy : SubstitutionPolicy) (action : ActionReader) (line : Nat) (text : List Char)
    (segments : List Segment) : Prop :=
  ∀ place : Position, place.line = line → read policy action place text = .pure segments

lemma readsAs_nil : ReadsAs policy action line [] [] := by
  intro place _
  simp [read, Span.ofText, Span.decodeAll]

lemma readsAs_plain {c : Char} {text : List Char} {segments : List Segment} (hl : c ≠ '[')
    (hs : c ≠ '#') (h : ReadsAs policy action line text segments) :
    ReadsAs policy action line (c :: text)
      (Segment.glue (.literal (String.ofList [c])) segments) := by
  intro place hp
  have h := h (place.right 1) hp
  rw [read] at h
  rw [read, Span.ofText_plain text hl hs, Span.decodeAll_consPlain, h, Outcome.map_pure]

lemma readsAs_substitution {body text : List Char} {segment : Segment} {segments : List Segment}
    (hbody : '$' ∉ body) (hd : Substitution.decode body = .ok segment)
    (h : ReadsAs policy action line text segments) :
    ReadsAs policy action line ('#' :: body ++ '$' :: text) (Segment.glue segment segments) := by
  intro place hp
  have h := h (place.right (Span.substitution body).source.length) hp
  rw [read] at h
  rw [read, Span.ofText_substitution text hbody, Span.decodeAll, Span.decode]
  simp only [hd, Outcome.pure_bind, h, Outcome.map_pure]

lemma readsAs_link {inner text : List Char} {segment : Segment} {segments : List Segment}
    (hne : inner ≠ []) (hinner : ∀ c ∈ inner, c ≠ '\n' ∧ c ≠ ']')
    (hlink : ∀ place : Position, place.line = line → readLink action place inner = .pure segment)
    (h : ReadsAs policy action line text segments) :
    ReadsAs policy action line ('[' :: '[' :: inner ++ ']' :: ']' :: text)
      (Segment.glue segment segments) := by
  intro place hp
  have h := h (place.right (Span.link inner).source.length) hp
  rw [read] at h
  have hlink := hlink (place.right 2) hp
  rw [read, Span.ofText_of_isInner (LinkSpan.isInner_of_forall hne hinner), Span.decodeAll,
    Span.decode, hlink,
    Outcome.pure_bind, h, Outcome.map_pure]

/-! ### Reading what is written -/

lemma readsAs_writeChar (c : Char) {text : List Char} {segments : List Segment}
    (h : ReadsAs policy action line text segments) :
    ReadsAs policy action line (writeChar c ++ text)
      (Segment.glue (.literal (String.ofList [c])) segments) := by
  unfold writeChar
  split_ifs
  · subst c; exact readsAs_substitution (show '$' ∉ "#35".toList by decide) rfl h
  · subst c; exact readsAs_substitution (show '$' ∉ "#38".toList by decide) rfl h
  · subst c; exact readsAs_substitution (show '$' ∉ "#91".toList by decide) rfl h
  · subst c; exact readsAs_substitution (show '$' ∉ "#124".toList by decide) rfl h
  · subst c; exact readsAs_substitution (show '$' ∉ "/".toList by decide) rfl h
  · subst c; exact readsAs_substitution (show '$' ∉ "#13".toList by decide) rfl h
  · exact readsAs_plain ‹_› ‹_› h

lemma readsAs_literal (literal : List Char) {text : List Char} {segments : List Segment}
    (hne : literal ≠ []) (h : ReadsAs policy action line text segments) :
    ReadsAs policy action line (literal.flatMap writeChar ++ text)
      (Segment.glue (.literal (String.ofList literal)) segments) := by
  induction literal with
  | nil => exact absurd rfl hne
  | cons c rest ih =>
    rw [List.flatMap_cons, List.append_assoc]
    rcases rest with _ | ⟨d, rest⟩
    · exact readsAs_writeChar c h
    · have hglue := Segment.glue_glue (String.ofList [c]) (String.ofList (d :: rest)) segments
      rw [← String.ofList_append, List.singleton_append] at hglue
      rw [← hglue]
      exact readsAs_writeChar c (ih (by simp))

lemma decode_of_isPlainName {name : List Char} (h : isPlainName name = true) :
    Substitution.decode name = .ok (.value (String.ofList name)) := by
  rcases name with _ | ⟨c, rest⟩
  · simp [isPlainName] at h
  · simp only [isPlainName, List.head?_cons, Bool.and_eq_true, bne_iff_ne, ne_eq,
      Option.some.injEq] at h
    obtain ⟨⟨⟨⟨-, hslash⟩, hsharp⟩, hpercent⟩, -⟩ := h
    have hslash' : ¬(c = '/' ∧ rest = []) := by rintro ⟨rfl, rfl⟩; exact hslash rfl
    simp [Substitution.decode, hsharp, hpercent, hslash']

lemma dollar_notMem_of_isPlainName {name : List Char} (h : isPlainName name = true) :
    '$' ∉ name := by
  simp only [isPlainName, Bool.and_eq_true, Bool.not_eq_true', List.any_eq_false, Bool.or_eq_true,
    decide_eq_true_eq, not_or] at h
  exact fun hmem => (h.2 _ hmem).1.1 rfl

end Reading

/-! ### Links -/

section Links

variable {options : Options} {line n : Nat} {label target : List Char}

/-- What the parts of a written link are. -/
structure IsPart (part : List Char) : Prop where
  ne_nil : part ≠ []
  trim_eq : trim part = part
  plain : ∀ c ∈ part, c ≠ '|' ∧ c ≠ '[' ∧ c ≠ ']' ∧ c ≠ '&' ∧ c ≠ '\n'

lemma isPart_of_isPlainPart {part : List Char} (h : isPlainPart part = true) : IsPart part := by
  simp only [isPlainPart, Bool.and_eq_true, bne_iff_ne, ne_eq, decide_eq_true_eq,
    Bool.not_eq_true', List.any_eq_false, Bool.or_eq_true, not_or] at h
  obtain ⟨⟨hne, htrim⟩, hany⟩ := h
  refine ⟨hne, htrim, fun c hc => ?_⟩
  obtain ⟨⟨⟨⟨h₁, h₂⟩, h₃⟩, h₄⟩, h₅⟩ := hany c hc
  exact ⟨h₁, h₂, h₃, h₄, h₅⟩

lemma IsPart.bar_notMem {part : List Char} (h : IsPart part) : '|' ∉ part :=
  fun hmem => (h.plain _ hmem).1 rfl

lemma readLink_bar {action : ActionReader} {group : Group} {behind : List Char}
    (place : Position) (hlabel : IsPart label) (hne : behind ≠ []) (htrim : trim behind = behind)
    (hbar : '|' ∉ behind)
    (haction : ∀ p : Position, p.line = place.line → action p behind = .pure group) :
    readLink action place (label ++ '|' :: behind) = .pure (.link (String.ofList label) group) := by
  rw [readLink_append hlabel.bar_notMem, if_neg hbar, htrim, if_neg hne, hlabel.trim_eq,
    haction (place.right _) rfl, Outcome.map_pure]

lemma trim_goto (htarget : IsPart target) :
    trim ("goto ".toList ++ target) = "goto ".toList ++ target := by
  refine trim_eq_self ?_ ?_
  · intro c hc
    obtain rfl : 'g' = c := by simpa using hc
    decide
  · intro c hc
    rw [List.getLast?_append, List.getLast?_eq_some_getLast htarget.ne_nil, Option.some_or] at hc
    rw [← List.getLast?_eq_some_getLast htarget.ne_nil] at hc
    exact isBlank_getLast?_of_trim htarget.trim_eq c hc

/-- The inside of a written link, with a jump that can be read behind the bar. -/
def linkInside (label target : List Char) : List Char :=
  if target = label then label
  else if Action.isBareTarget target then label ++ '|' :: target
  else label ++ '|' :: ("goto ".toList ++ target)

lemma writeLink?_eq (hlabel : isPlainPart label = true) (htarget : isPlainPart target = true) :
    writeLink? label target = some ('[' :: '[' :: linkInside label target ++ [']', ']']) := by
  have hgoto : "|goto ".toList = '|' :: "goto ".toList := by simp
  rw [writeLink?, if_pos (by simp [hlabel, htarget]), linkInside, hgoto]
  split_ifs <;> simp only [List.cons_append, List.append_assoc]

lemma readLink_linkInside (place : Position) (hlabel : IsPart label) (htarget : IsPart target) :
    readLink (Action.read options (n + 1)) place (linkInside label target) =
      .pure (.link (String.ofList label) (.jump (String.ofList target) place.line)) := by
  have hbar := htarget.bar_notMem
  unfold linkInside
  split_ifs with heq hbare
  · subst heq
    rw [readLink_of_notMem hbar, hlabel.trim_eq]
  · refine readLink_bar place hlabel htarget.ne_nil htarget.trim_eq hbar fun p hp => ?_
    rw [← hp]
    exact Action.read_of_isBareTarget _ hbare
  · refine readLink_bar place hlabel (by simp) (trim_goto htarget) ?_ fun p hp => ?_
    · simpa using hbar
    · rw [← hp]
      refine Action.read_goto n htarget.ne_nil (fun c hc => ?_) htarget.trim_eq
        (by simpa using hbare)
      exact ⟨(htarget.plain c hc).2.2.2.1, (htarget.plain c hc).2.2.2.2⟩

lemma linkInside_plain (hlabel : IsPart label) (htarget : IsPart target) :
    ∀ c ∈ linkInside label target, c ≠ '\n' ∧ c ≠ ']' ∧ c ≠ '&' := by
  have hpart {part : List Char} (h : IsPart part) : ∀ c ∈ part, c ≠ '\n' ∧ c ≠ ']' ∧ c ≠ '&' :=
    fun c hc => ⟨(h.plain c hc).2.2.2.2, (h.plain c hc).2.2.1, (h.plain c hc).2.2.2.1⟩
  have hgoto : ∀ c ∈ '|' :: "goto ".toList, c ≠ '\n' ∧ c ≠ ']' ∧ c ≠ '&' := by simp
  intro c hc
  unfold linkInside at hc
  split_ifs at hc
  · exact hpart hlabel c hc
  · rcases List.mem_append.1 hc with hc | hc
    · exact hpart hlabel c hc
    · rcases List.mem_cons.1 hc with rfl | hc
      · exact hgoto _ List.mem_cons_self
      · exact hpart htarget c hc
  · rcases List.mem_append.1 hc with hc | hc
    · exact hpart hlabel c hc
    · rw [← List.cons_append] at hc
      rcases List.mem_append.1 hc with hc | hc
      · exact hgoto c hc
      · exact hpart htarget c hc

lemma linkInside_ne_nil (hlabel : IsPart label) : linkInside label target ≠ [] := by
  unfold linkInside
  split_ifs <;> simp [hlabel.ne_nil]

end Links

/-! ### Written segments -/

section Written

variable {policy : SubstitutionPolicy} {options : Options} {line n : Nat} {text : List Char}

lemma writeSegment?_link {label : String} {action : Group}
    (h : writeSegment? (.link label action) = some text) :
    ∃ target, action = .jump target action.line ∧ IsPart label.toList ∧ IsPart target.toList ∧
      text = '[' :: '[' :: linkInside label.toList target.toList ++ [']', ']'] := by
  cases htarget : action.jumpTarget? with
  | none => simp [writeSegment?, htarget] at h
  | some target =>
    simp only [writeSegment?, htarget] at h
    have hparts : isPlainPart label.toList = true ∧ isPlainPart target.toList = true := by
      by_contra hc
      rw [writeLink?, if_neg (by simpa using hc)] at h
      simp at h
    rw [writeLink?_eq hparts.1 hparts.2] at h
    exact ⟨target, Group.eq_jump_of_jumpTarget? htarget, isPart_of_isPlainPart hparts.1,
      isPart_of_isPlainPart hparts.2, (Option.some.inj h).symm⟩

/-- **Written segments are read back**, wherever their text stands on the line. -/
theorem readsAs_write? {segments : List Segment} (hnormal : Segment.Normal line segments)
    (hwrite : write? segments = some text) :
    ReadsAs policy (Action.read options (n + 1)) line text segments := by
  induction segments generalizing text with
  | nil =>
    obtain rfl : text = [] := by simpa [write?] using hwrite.symm
    exact readsAs_nil
  | cons segment rest ih =>
    simp only [write?] at hwrite
    split at hwrite
    case h_2 => simp at hwrite
    rename_i own texts hown hrest
    obtain rfl : own ++ texts = text := by simpa using hwrite
    cases segment with
    | literal t =>
      obtain rfl : t.toList.flatMap writeChar = own := by simpa [writeSegment?] using hown
      have ih := ih hnormal.2.2 hrest
      have h := readsAs_literal t.toList (by simpa using hnormal.1) ih
      rwa [String.ofList_toList, Segment.glue_literal_of_normal hnormal] at h
    | value name =>
      simp only [writeSegment?, Option.ite_none_right_eq_some, Option.some.injEq] at hown
      obtain ⟨hname, rfl⟩ := hown
      have h := readsAs_substitution (dollar_notMem_of_isPlainName hname)
        (decode_of_isPlainName hname) (ih hnormal hrest)
      simpa [Segment.glue] using h
    | link label action =>
      obtain ⟨target, haction, hlabel, htarget, rfl⟩ := writeSegment?_link hown
      have hline : action.line = line := hnormal.1
      rw [hline] at haction
      subst haction
      have hplain := linkInside_plain hlabel htarget
      -- the inside of the link jumps to the target, wherever it stands on the line
      have hlink : ∀ place : Position, place.line = line →
          readLink (Action.read options (n + 1)) place
              (linkInside label.toList target.toList) =
            .pure (.link label (.jump target line)) := by
        intro place hp
        have h : readLink (Action.read options (n + 1)) place _ = _ :=
          readLink_linkInside place hlabel htarget
        rwa [hp, String.ofList_toList, String.ofList_toList] at h
      have h : ReadsAs policy _ line _ _ := readsAs_link (linkInside_ne_nil hlabel)
        (fun c hc => ⟨(hplain c hc).1, (hplain c hc).2.1⟩) hlink (ih hnormal.2 hrest)
      simpa [Segment.glue] using h

/-! ### A whole source -/

/-- What a written text is as a payload: nothing in it ends the payload, and nothing at its end is
dropped. -/
structure IsPayload (text : List Char) : Prop where
  plain : Payload.IsPlain text
  getLast?_ne : text.getLast? ≠ some '\r'

lemma isPayload_append {a b : List Char} (ha : IsPayload a) (hb : IsPayload b) :
    IsPayload (a ++ b) := by
  refine ⟨fun c hc => (List.mem_append.1 hc).elim (ha.plain c) (hb.plain c), ?_⟩
  rw [List.getLast?_append]
  cases h : b.getLast? with
  | none => exact ha.getLast?_ne
  | some c =>
    have := hb.getLast?_ne
    rw [h] at this
    exact this

lemma isPayload_writeChar (c : Char) : IsPayload (writeChar c) := by
  unfold writeChar
  split_ifs
  case neg h₁ h₂ h₃ h₄ h₅ h₆ => exact ⟨by simp [Payload.IsPlain, h₂, h₅], by simpa using h₆⟩
  all_goals exact ⟨by simp [Payload.IsPlain], by decide⟩

lemma isPayload_literal (literal : List Char) : IsPayload (literal.flatMap writeChar) := by
  induction literal with
  | nil => exact ⟨by simp [Payload.IsPlain], by simp⟩
  | cons c rest ih => exact isPayload_append (isPayload_writeChar c) ih

lemma isPayload_name {name : List Char} (h : isPlainName name = true) :
    IsPayload ('#' :: name ++ ['$']) := by
  simp only [isPlainName, Bool.and_eq_true, Bool.not_eq_true', List.any_eq_false, Bool.or_eq_true,
    decide_eq_true_eq, not_or] at h
  have hname : Payload.IsPlain name := fun c hc => ⟨(h.2 c hc).1.2, (h.2 c hc).2⟩
  refine ⟨?_, by rw [List.getLast?_append]; simp⟩
  intro c hc
  simp only [List.cons_append, List.mem_cons, List.mem_append, List.not_mem_nil, or_false] at hc
  rcases hc with rfl | hc | rfl
  · decide
  · exact hname c hc
  · decide

lemma isPayload_segment {segment : Segment} (h : writeSegment? segment = some text) :
    IsPayload text := by
  cases segment with
  | literal t =>
    obtain rfl : t.toList.flatMap writeChar = text := by simpa [writeSegment?] using h
    exact isPayload_literal _
  | value name =>
    simp only [writeSegment?, Option.ite_none_right_eq_some, Option.some.injEq] at h
    obtain ⟨hname, rfl⟩ := h
    exact isPayload_name hname
  | link label action =>
    obtain ⟨target, -, hlabel, htarget, rfl⟩ := writeSegment?_link h
    refine ⟨?_, by rw [List.getLast?_append]; simp⟩
    intro c hc
    simp only [List.cons_append, List.mem_cons, List.mem_append, List.not_mem_nil, or_false] at hc
    -- what stands between the brackets is plain, and so are the brackets
    rcases hc with rfl | rfl | hc | rfl | rfl
    case inr.inr.inl =>
      have := linkInside_plain hlabel htarget c hc
      exact ⟨this.2.2, this.1⟩
    all_goals decide

lemma isPayload_write? {segments : List Segment} (h : write? segments = some text) :
    IsPayload text := by
  induction segments generalizing text with
  | nil =>
    obtain rfl : text = [] := by simpa [write?] using h.symm
    exact ⟨by simp [Payload.IsPlain], by simp⟩
  | cons segment rest ih =>
    simp only [write?] at h
    split at h
    case h_2 => simp at h
    rename_i own texts hown hrest
    obtain rfl : own ++ texts = text := by simpa using h
    exact isPayload_append (isPayload_segment hown) (ih hrest)

/-- **Print, write, print again.** Segments in normal form that have a written form are read from it
as they were, by a source that is one print statement, and nothing is reported. -/
theorem parse_write? {segments : List Segment} (hnormal : Segment.Normal 1 segments)
    (hwrite : write? segments = some text) :
    parse ("pln " ++ String.ofList text) = .ok ⟨⟨[⟨[.print segments true], 1⟩]⟩, []⟩ := by
  have hpayload := isPayload_write? hwrite
  have hscan := Scan.read_carrier 'p' "ln".toList .start (by decide +kernel)
    (List.all_eq_true.1 (by decide +kernel)) (by decide +kernel)
    (by decide : Carrier.print true ≠ .button) hpayload.plain
  rw [dropReturn_eq_self hpayload.getLast?_ne] at hscan
  -- the source is one token, as nothing in the written text ends a payload
  have htokens : tokenize ("pln " ++ String.ofList text) =
      ([⟨.payload (.print true) (String.ofList text), String.ofList ("pln ".toList ++ text),
        .start⟩,
        ⟨.mark .sourceEnd, "", Position.start.advance ("pln ".toList ++ text)⟩], []) := by
    have hsource : ("pln " ++ String.ofList text).toList = 'p' :: "ln".toList ++ ' ' :: text := by
      simp
    rw [tokenize, hsource, hscan]
    rfl
  have hread : ReadsAs .abort (Action.read {} 16) 1 text segments := readsAs_write? hnormal hwrite
  have hstatement (ctx : Context) (l : Lexeme)
      (hpolicy : ctx.policy = .abort) (haction : ctx.action = Action.read {} 16)
      (hl : l.token = .payload (.print true) (String.ofList text)) (hline : l.start.line = 1) :
      Statement.read ctx [l] = ⟨⟨[], .ok (.print segments true)⟩, [l].length⟩ := by
    rw [Statement.read_payload [] hl, Statement.readPayload, hpolicy, haction,
      String.toList_ofList, hread l.payloadStart hline]
    rfl
  rw [parse, htokens]
  simp only [Parser.ofLexemes, Parser.run, Parser.context]
  rw [← List.singleton_append, Lexeme.untilEnd_append [] (by simp) rfl,
    Program.read_statement (hstatement _ _ rfl rfl rfl rfl)]
  rfl

/-- A literal of characters that have to be escaped, a variable with brackets in its name, and the
three forms of a link. -/
theorem parse_write?_sample :
    parse ("pln " ++ String.ofList
        "a##38$$ ##91$##91$]#/$#b[[%$[[Go]] [[x #1|y.z]][[Up|goto the hall]]".toList) =
      .ok ⟨⟨[⟨[.print [.literal "a&$ [[]\n", .value "b[[%", .link "Go" (.jump "Go" 1),
        .literal " ", .link "x #1" (.jump "y.z" 1), .link "Up" (.jump "the hall" 1)] true], 1⟩]⟩,
        []⟩ :=
  parse_write? (by simp [Segment.Normal, Group.jump]) (by decide +kernel)

end Written

end Print

end QuestScript
