import QuestScript.Proofs.Expr.Grammar
import QuestScript.Proofs.Expr.Parallel
import QuestScript.Proofs.Program.Line
import QuestScript.Proofs.Statement.Fields
import QuestScript.Proofs.Token.Clean
import QuestScript.Statement.Reading

/-!
Quantities of inventory changes.

The payload of an inventory change is cut at its first comma, and what stands in front of the comma
is trimmed and read as a text of its own. So the quantity is a number exactly when that text, read
where a line begins, gives the tokens of the number and nothing else
(`InventoryChange.readQuantity_eq_ok`). A delay is read in place: it is a number exactly when the
tokens behind its keyword are (`Statement.read_pause`).
-/

namespace QuestScript

open Text

namespace NumberExpr

variable {e : NumberExpr} {ts : List Token} {ls : List Lexeme}

/-- The tokens are read as the number, all of them, wherever they stand. -/
def IsReadFrom (e : NumberExpr) (ts : List Token) : Prop :=
  ∀ ls : List Lexeme, ls.map Lexeme.token = ts → read ls = ⟨.ok e, ls.length⟩

lemma isReadFrom_iff : e.IsReadFrom (ls.map Lexeme.token) ↔ read ls = ⟨.ok e, ls.length⟩ := by
  refine ⟨fun h => h ls rfl, fun h ms hms => ?_⟩
  have hlength : ms.length = ls.length := by simpa using congrArg List.length hms
  rw [read_eq_of_tokens hms, h, hlength]

lemma Yields.text?_eq_none {place : Nat} (h : e.Yields place ts) : ∀ t ∈ ts, t.text? = none := by
  induction h with
  | const => simp [Token.text?]
  | var => simp [Token.text?]
  | negate _ _ ih => simpa [Token.text?] using ih
  | plus _ _ ih => simpa [Token.text?] using ih
  | binary _ _ _ ihl ihr =>
    refine List.forall_mem_append.mpr ⟨ihl, ?_⟩
    simpa [Token.text?] using ihr
  | parens _ ih => simpa [Token.text?, or_imp, forall_and] using ih

lemma Yields.ne_nil {place : Nat} (h : e.Yields place ts) : ts ≠ [] := by
  cases h <;> simp

lemma IsReadFrom.yields (h : e.IsReadFrom ts) : e.Yields 4 ts := by
  let ls : List Lexeme := ts.map (⟨·, "", .start⟩)
  have hls : ls.map Lexeme.token = ts := (List.map_map ..).trans (List.map_id ts)
  have hread := h ls hls
  have hgives := gives_read ls e (by rw [hread])
  rwa [hread, List.take_length, List.nil_append, hls] at hgives

end NumberExpr

lemma Statement.read_pause {ctx : Context} {l : Lexeme} {rest : List Lexeme} {e : NumberExpr}
    (hl : l.token = .mark .pause) :
    read ctx (l :: rest) = ⟨⟨[], .ok (.pause e)⟩, (l :: rest).length⟩ ↔
      NumberExpr.read rest = ⟨.ok e, rest.length⟩ := by
  simp only [read, readSimple, hl, Context.lift]
  rcases NumberExpr.read rest with ⟨wanted | n, k⟩ <;>
    simp [Parsed.map, Parsed.after, Outcome.map, Outcome.fail, Outcome.pure, Except.map,
      Nat.add_comm]

lemma Statement.readPayload_inventory (ctx : Context) (l : Lexeme) (remove : Bool)
    (text : List Char) : readPayload ctx l (InventoryChange.carrier remove) text =
      (InventoryChange.read remove l.payloadStart text).map .inventory := by
  cases remove <;> rfl

/-! ### Quantities -/

namespace InventoryChange

variable {text : List Char} {e : NumberExpr}

/-- **A quantity is the number** whose tokens its text gives where a line begins. -/
theorem readQuantity_eq_ok (place : Position) : readQuantity place text = ⟨[], .ok e⟩ ↔
    ∃ ts, Scan.Gives .fresh text ts ∧ e.IsReadFrom ts := by
  constructor
  · intro h
    obtain ⟨ls, hls, hfree⟩ := Scan.exists_lexemes_eq .fresh place text
    have hend : Lexeme.untilEnd (ls ++ [⟨.mark .sourceEnd, "", place.advance text⟩]) = (ls, _) :=
      Lexeme.untilEnd_append [] hfree rfl
    have hinside := (NumberExpr.inside_read ls).le
    rcases hread : NumberExpr.read ls with ⟨wanted | n, k⟩
    · simp [readQuantity, hls, hend, hread] at h
    rw [hread] at hinside
    simp only [readQuantity, hls, hend, hread, List.isEmpty_iff, List.drop_eq_nil_iff] at h
    split at h
    · -- the number takes all tokens
      next hk =>
      obtain ⟨hreports, rfl⟩ : (Scan.read .fresh place text).reports = [] ∧ n = e := by
        simpa using h
      obtain rfl : k = ls.length := Nat.le_antisymm hinside hk
      refine ⟨ls.map Lexeme.token, (Scan.gives_iff place).mpr ⟨hreports, ?_⟩,
        NumberExpr.isReadFrom_iff.mpr hread⟩
      rw [hls, List.map_append]
      rfl
    · simp at h
  · rintro ⟨ts, hgives, hread⟩
    obtain ⟨ls, hscan, hls, hfree⟩ := hgives.exists_lexemes place
    have hend : Lexeme.untilEnd (ls ++ [⟨.mark .sourceEnd, "", place.advance text⟩]) = (ls, _) :=
      Lexeme.untilEnd_append [] hfree rfl
    simp [readQuantity, hscan, hend, hread ls hls]

/-- **A change with a quantity** is read exactly when the trimmed text in front of the comma is a
number where a line begins. -/
theorem read_eq_ok {item : List Char} (remove : Bool) (place : Position) (htext : ',' ∉ text)
    (hbracket : ']' ∉ item) (hitem : trim item ≠ []) :
    read remove place (text ++ ',' :: item) = ⟨[], .ok (.change
        (if remove then .negate e else e) (String.ofList (trim item)))⟩ ↔
      ∃ ts, Scan.Gives .fresh (trim text) ts ∧ e.IsReadFrom ts := by
  have hof (place : Position) (n : NumberExpr) : ofItem remove place item n =
      .pure (.change (if remove then .negate n else n) (String.ofList (trim item))) := by
    rw [ofItem, if_neg (by simpa using hitem)]
  rw [← readQuantity_eq_ok (place.right (leadingBlanks text)), read,
    Fields.split_one htext hbracket]
  simp only [Outcome.bind_eq_ok, hof, Outcome.pure_eq_ok]
  constructor
  · rintro ⟨n, first, later, hquantity, ⟨rfl, hn⟩, hreports⟩
    obtain rfl : first = [] := by simpa using hreports.symm
    obtain rfl : n = e := by
      cases remove <;> simpa using hn
    exact hquantity
  · intro hquantity
    exact ⟨e, [], [], hquantity, ⟨rfl, rfl⟩, rfl⟩

end InventoryChange

end QuestScript
