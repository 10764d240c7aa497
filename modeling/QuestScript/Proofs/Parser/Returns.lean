import QuestScript.Proofs.Parser.Correspondence
import QuestScript.Proofs.Program.LineEnd
import QuestScript.Proofs.Report
import QuestScript.Proofs.Token.Returns

/-!
Sources whose lines end with carriage returns.

A source is read in step with the source that has a return in front of every line feed. Reports on
line breaks are placed one column further to the right there. They stay in order among the others,
for nothing else is reported on a line behind its line break.
-/

namespace QuestScript

open Text (withReturns)

/-- The diagnostics differ in nothing but their columns. -/
structure Diagnostic.SameButColumn (d d' : Diagnostic) : Prop where
  kind : d'.kind = d.kind
  message : d'.message = d.message
  line : d'.place.line = d.place.line
  found : d'.found = d.found
  expected : d'.expected = d.expected
  suggestion : d'.suggestion = d.suggestion

/-- The reports are shown as diagnostics that differ in nothing but their columns. -/
def Report.SameButColumn (r r' : Report) : Prop := r.diagnostic.SameButColumn r'.diagnostic

/-- The same program is read, or reading is impossible, and what is reported differs in nothing but
columns. -/
inductive SameButColumns : Except Abort Output → Except Abort Output → Prop
  | ok {program : Program} {reports reports' : List Report}
      (h : List.Forall₂ Report.SameButColumn reports reports') :
      SameButColumns (.ok ⟨program, reports⟩) (.ok ⟨program, reports'⟩)
  | error {cause cause' : Report} {reports reports' : List Report}
      (hcause : cause.SameButColumn cause')
      (h : List.Forall₂ Report.SameButColumn reports reports') :
      SameButColumns (.error ⟨cause, reports⟩) (.error ⟨cause', reports'⟩)

/-! ### Places -/

namespace Position

variable {source : List Char} {p p' q q' : Position}

lemma le_of_stands_lineFeed (hp : p.Stands source []) (hq : q.Stands source ['\n']) :
    p ≤ q ∨ q.line < p.line := by
  obtain ⟨front, back, hsource, rfl⟩ := hp
  obtain ⟨lead, tail, rfl, rfl⟩ := hq
  simp only [List.append_nil, List.append_assoc, List.singleton_append] at hsource
  rcases List.append_eq_append_iff.mp hsource with ⟨more, rfl, htail⟩ | ⟨more, rfl, -⟩
  · rcases more with _ | ⟨c, more⟩
    · exact .inl (by rw [List.append_nil])
    · obtain ⟨rfl, -⟩ := List.cons.inj htail
      rw [advance_append]
      exact .inr (line_lt_advance _ List.mem_cons_self)
  · rw [advance_append]
    exact .inl (le_advance _ more)

lemma Moved.eq_of_stands (h : p.Moved source p') (hp' : p'.Stands source []) : p' = p := by
  rcases h with ⟨rfl, -⟩ | ⟨rfl, hbreak⟩
  · rfl
  · have hle := le_of_stands_lineFeed hp' hbreak
    simp only [le_iff, right] at hle
    omega

/-- Moved places are in the same order, unless two stand at one line break of which the first is
moved. -/
lemma Moved.le_iff_le (hp : p.Moved source p') (hq : q.Moved source q')
    (h : p'.Stands source [] ∨ p'.line < q'.line) : p ≤ q ↔ p' ≤ q' := by
  rcases h with h | h
  · obtain rfl := hp.eq_of_stands h
    rcases hq with ⟨rfl, -⟩ | ⟨rfl, hbreak⟩
    · rfl
    · refine ⟨fun hle => le_trans hle (q.le_right 1), fun hle => ?_⟩
      refine (le_of_stands_lineFeed h hbreak).resolve_right fun hlt => ?_
      have hline := le_iff.mp hle
      simp only [right] at hline
      omega
  · have hlt := hp.line ▸ hq.line ▸ h
    exact ⟨fun _ => le_iff.mpr (.inl h), fun _ => le_iff.mpr (.inl hlt)⟩

end Position

/-! ### Reports -/

variable {source : List Char}

open Parallel (returning)

lemma Report.sameButColumn_of_returning {r r' : Report} (h : (returning source).report r r') :
    r.SameButColumn r' := by
  obtain ⟨hfault, hplace⟩ := h
  exact ⟨congrArg Fault.kind hfault, congrArg Fault.message hfault, hplace.line,
    congrArg Fault.found hfault, congrArg Fault.expected hfault, congrArg Fault.suggestion hfault⟩

lemma Lexeme.Returned.keeps {l l' : Lexeme} (h : l.Returned source l') :
    l'.Keeps (Position.Stands source · []) where
  start hl := by
    rw [h.token] at hl
    rw [h.stays hl]
    rcases Parallel.moved_of_text h.start with ⟨-, hstart⟩ | ⟨-, hstart⟩
    · exact hstart
    · exact hstart.start
  payload {carrier text} hl hcarrier := by
    rw [h.token] at hl
    obtain ⟨hfree, hplace⟩ := h.payload hl
    refine ⟨hfree, fun n hn => ?_⟩
    rw [h.payloadStays hl hcarrier] at hplace ⊢
    rcases hplace with ⟨-, hplace⟩ | ⟨hnil, hplace⟩
    · -- the text stands where it stood
      rw [← List.take_append_drop n text.toList] at hplace
      have hpart : l.payloadStart.Stands source
          (text.toList.take n ++ [] ++ text.toList.drop n) := by simpa using hplace
      have hmoved := hpart.part fun hmem => hfree (List.mem_of_mem_take hmem)
      rwa [List.length_take, Nat.min_eq_left hn] at hmoved
    · -- an empty text was moved to the line break
      rw [hnil] at hn
      obtain rfl := Nat.le_zero.mp hn
      rcases hplace with ⟨-, hplace⟩ | ⟨-, hplace⟩
      · exact hplace
      · exact hplace.start

/-- In the source with returns, reports on line breaks stand above all that are made after them. -/
lemma pairwise_withReturns (options : Options) {scan : Scan}
    (h : scan.Agrees source (Scan.read .fresh .start (withReturns source))) :
    (Action.program options options.maxNesting .start (withReturns source)).reports.Pairwise
      fun r s => r.place.Stands source [] ∨ r.place.line < s.place.line := by
  obtain ⟨ts, hts, hfree⟩ := Scan.exists_lexemes_eq .fresh .start (withReturns source)
  -- all but line breaks stand at places of the source without returns
  have hkeeps : ∀ l ∈ ts, l.Keeps (Position.Stands source · []) := by
    have hall := ((List.forall₂_and_left _ _).mp
      (h.lexemes.flip.imp fun l' l (hl : Lexeme.Returned source l l') => ⟨hl.keeps, hl⟩)).1
    exact fun l hl => hall l (hts ▸ List.mem_append_left _ hl)
  have hone : Lexeme.OneLine ts := fun l hl carrier text htoken => by
    obtain ⟨-, -, -, -, hline, -⟩ := Scan.exists_of_payload (hts ▸ List.mem_append_left _ hl) htoken
    exact hline
  have hlines := Scan.pairwise_lexemes .fresh .start (withReturns source)
  have hend : (Position.start.advance (withReturns source)).Stands source [] :=
    ⟨source, [], by simp, Text.advance_withReturns _ _⟩
  rw [hts] at hlines
  rw [Action.program_eq options options.maxNesting hts hfree rfl]
  exact Program.pairwise_readGroups
    (fun K => (Parallel.limits_within K options).contexts options.maxNesting _ _) rfl hend hkeeps
    hone hlines

/-! ### Sources -/

lemma forall₂_sort_withReturns {scanned made made' : List Report}
    (hscanned : ∀ r ∈ scanned, r.place.Stands source [])
    (hmade : List.Forall₂ (returning source).report made made')
    (hpairwise : made'.Pairwise fun r s =>
      r.place.Stands source [] ∨ r.place.line < s.place.line) :
    List.Forall₂ Report.SameButColumn (Report.sort (scanned ++ made))
      (Report.sort (scanned ++ made')) := by
  have hsame : List.Forall₂ (returning source).report scanned scanned :=
    List.forall₂_same.mpr fun r hr => ⟨rfl, .inl ⟨rfl, hscanned r hr⟩⟩
  have hfirst : (scanned ++ made').Pairwise fun r s =>
      r.place.Stands source [] ∨ r.place.line < s.place.line := by
    refine List.pairwise_append.mpr ⟨?_, hpairwise, fun r hr _ _ => .inl (hscanned r hr)⟩
    exact List.pairwise_iff_forall_sublist.mpr fun hsub =>
      .inl (hscanned _ (hsub.subset List.mem_cons_self))
  refine (Report.forall₂_sort (List.rel_append hsame hmade) hfirst ?_).imp
    fun r r' => Report.sameButColumn_of_returning
  exact fun r r' s s' hr hs h => hr.2.le_iff_le hs.2 h

/-- **Carriage returns at the ends of lines change nothing but columns.** If a source has none, and
no string literal in it goes over the end of a line, then putting one in front of every line feed
leaves the program as it is, and of each report all but its column. -/
theorem parse_withReturns (source : String) (options : Options) (hreturn : '\r' ∉ source.toList)
    (hstrings : ∀ l ∈ (tokenize source).1, ∀ value, l.token = .string value →
      '\n' ∉ value.toList) :
    SameButColumns (parse source options)
      (parse (String.ofList (withReturns source.toList)) options) := by
  have hagrees : Scan.Agrees source.toList (Scan.read .fresh .start source.toList)
      (Scan.read .fresh .start (withReturns source.toList)) :=
    Scan.agrees_withReturns ⟨[], [], by simp, rfl⟩ hreturn hstrings
  have hscanned : (tokenize (String.ofList (withReturns source.toList))).2 =
      (tokenize source).2 := by
    simpa [tokenize] using hagrees.reports
  have hplaces : ∀ r ∈ (tokenize source).2, r.place.Stands source.toList [] := by
    intro r hr
    obtain ⟨front, back, hsource, hplace, -⟩ := Scan.exists_of_mem_reports hr
    exact ⟨front, back, by simpa using hsource, hplace⟩
  have hpairwise := pairwise_withReturns options hagrees
  rw [parse_eq_program, parse_eq_program, hscanned, String.toList_ofList]
  rcases ((Parallel.limits_returning source.toList options).program options.maxNesting
      (hagrees.lexemes.imp fun _ _ hl => hl.toLexemes)).of_escalate with
    ⟨made, made', p, p', hp, hp', hmade, hgroups⟩ |
    ⟨made, made', cause, cause', hcause, hcause', hmade, hmoved⟩
  · -- the programs are equal, as no line was renumbered
    have hsame : p' = p := by
      have hid : Group.renumber (returning source.toList).line = id := funext Group.renumber_id
      rw [hid, List.map_id] at hgroups
      exact congrArg Program.mk hgroups
    rw [Parsed.reports, hp'] at hpairwise
    simp only [Parsed.result, Parsed.reports, hp, hp', hsame]
    exact .ok (forall₂_sort_withReturns hplaces hmade hpairwise)
  · -- reading is given up in both, on the same line
    rw [Parsed.reports, hcause'] at hpairwise
    simp only [Parsed.result, Parsed.reports, hcause, hcause']
    exact .error (Report.sameButColumn_of_returning hmoved)
      (forall₂_sort_withReturns hplaces hmade hpairwise)

/-- A string on one line, a label without a name, and a condition without `then`, which is reported
one column further to the right where there are returns. -/
theorem parse_withReturns_sample :
    SameButColumns (parse "a = \"b c\"\nif a\n:\nend")
      (parse "a = \"b c\"\r\nif a\r\n:\r\nend") := by
  have hreturns : String.ofList (withReturns "a = \"b c\"\nif a\n:\nend".toList) =
      "a = \"b c\"\r\nif a\r\n:\r\nend" := by decide +kernel
  have htokens : (tokenize "a = \"b c\"\nif a\n:\nend").1.map Lexeme.token =
      [.name "a", .mark .equal, .string "b c", .mark .lineBreak, .mark .ifWord, .name "a",
        .mark .lineBreak, .payload .label "", .mark .lineBreak, .mark .endWord,
        .mark .sourceEnd] := by decide +kernel
  rw [← hreturns]
  refine parse_withReturns _ {} (by decide +kernel) fun l hl value htoken => ?_
  have hmem : l.token ∈ (tokenize "a = \"b c\"\nif a\n:\nend").1.map Lexeme.token :=
    List.mem_map_of_mem hl
  rw [htokens, htoken] at hmem
  obtain rfl : value = "b c" := by simpa using hmem
  decide +kernel

end QuestScript
