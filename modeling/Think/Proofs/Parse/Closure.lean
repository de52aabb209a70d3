import Think.Node.Cursor
import Think.Proofs.Parse.AtEnd

/-! # Properties that all productions share

A property that holds of each single action and carries over from the parts of a production to the
whole holds of every production. An import counts as one action. Where a property depends on how a
form starts, forms need another one behind the word that opens them.
-/

namespace Think

namespace Lexeme

def isPlain : Lexeme → Bool
  | endOfText | keyword .importKw => false
  | l => !l.opens

theorem ne_of_isPlain {l : Lexeme} (h : l.isPlain = true) :
    l ≠ .endOfText ∧ l ≠ .keyword .importKw := by
  constructor <;>
  · rintro rfl
    cases h

theorem opens_of_isPlain {l : Lexeme} (h : l.isPlain = true) : l.opens = false := by
  unfold isPlain at h
  split at h
  · cases h
  · cases h
  · simpa using h

theorem isPlain_of_isVarText {l : Lexeme} (h : l.isVarText = true) : l.isPlain = true := by
  unfold isVarText at h
  split at h
  · rfl
  · rfl
  · rfl
  · cases h

end Lexeme

namespace Parse

variable {α β : Type} {x : Parse α} {k : α → Parse β} {p : Progress} {n : Nat} {l : Lexeme}

def importForm : Parse Node := do
  advance
  let t ← current
  match t.lexeme with
  | .text written => advance; return .importFile t.span (importPath written)
  | _ => reject "Expected string"

def caseTail (fuel : Nat) : Parse Cases := do
  let condition ← part (expression fuel)
  keyword .thenKw
  match ← lexeme with
  | .newline =>
    advance
    let body ← part (statements fuel)
    if ← atKeyword .endKw then
      advance
      return ([(condition, body, true)], none)
    else
      let (others, fallback) ← part (moreCases fuel)
      return ((condition, body, true) :: others, fallback)
  | _ =>
    let body ← part (statement fuel)
    let (others, fallback) ← part (moreCases fuel)
    return ((condition, body, false) :: others, fallback)

theorem cases_succ (n : Nat) (lead : Keyword) :
    Parse.cases (n + 1) lead = (do optionalVar; keyword lead; caseTail n) := by
  rw [Parse.cases]
  rfl

/-- The property carries over from parts to the whole. -/
structure Composes (P : ∀ {α : Type}, Parse α → Progress → Prop) : Prop where
  ret : ∀ {α : Type} (a : α) (p : Progress), P (pure a) p
  exhausted : ∀ {α : Type} (p : Progress), P (exhausted : Parse α) p
  reject : ∀ {α : Type} (details : String) (p : Progress), P (reject details : Parse α) p
  bind : ∀ {α β : Type} {x : Parse α} {k : α → Parse β} {p : Progress},
    P x p → (∀ a q, P (k a) q) → P (x >>= k) p
  current : ∀ {β : Type} {k : Token → Parse β} {p : Progress},
    P (k p.feed.current) p → P (current >>= k) p
  lexeme : ∀ {β : Type} {k : Lexeme → Parse β} {p : Progress},
    P (k p.feed.current.lexeme) p → P (lexeme >>= k) p
  importForm : ∀ {p : Progress}, p.feed.current.lexeme = .keyword .importKw → P importForm p
  newlines : ∀ p : Progress, P newlines p
  part : ∀ {α : Type} {x : Parse α} {p : Progress}, P x (.start p.feed) → P (part x) p
  partOr : ∀ {α : Type} {x : Parse α} {p : Progress} (details : String),
    P x (.start p.feed) → P (partOr details x) p
  attempt : ∀ {α : Type} {x : Parse α} {p : Progress}, P x (.start p.feed) → P (attempt x) p

namespace Composes

variable {P : ∀ {α : Type}, Parse α → Progress → Prop} (h : Composes P)

include h

theorem map {f : α → β} (hx : P x p) : P (f <$> x) p := by
  rw [← bind_pure_comp]
  exact h.bind hx fun _ q => h.ret _ q

theorem keyword_of_advance {w : Keyword}
    (ha : p.feed.current.lexeme = .keyword w → P Parse.advance p) : P (keyword w) p := by
  apply h.lexeme
  split
  · next hl =>
    split
    · next he => exact ha (by rw [hl, he])
    · exact h.reject _ p
  · exact h.reject _ p

theorem optionalVar_of_advance
    (ha : p.feed.current.lexeme.isVarText = true → P Parse.advance p) : P optionalVar p := by
  apply h.lexeme
  split
  · next hv => exact ha hv
  · exact h.ret _ p

theorem ifKeyword {w : Keyword} {y z : Parse β}
    (hy : p.feed.current.lexeme = .keyword w → P y p) (hz : P z p) :
    P (do if ← atKeyword w then y else z) p := by
  rw [atKeyword, bind_assoc]
  apply h.lexeme
  split
  · next v hv =>
    rw [pure_bind]
    split
    · next hw => exact hy (by simpa [hv] using hw)
    · exact hz
  · rw [pure_bind]
    exact hz

end Composes

/-- The property holds of single actions, and of what is made of productions that have it. -/
structure Closed (P : ∀ {α : Type}, Parse α → Progress → Prop) : Prop extends Composes P where
  advance : ∀ {p : Progress} {l : Lexeme}, p.feed.current.lexeme = l →
    l ≠ .endOfText ∧ l ≠ .keyword .importKw → P advance p

/-- The property holds of single actions that open no form, and of forms that have the property
`B` behind the word that opens them. -/
structure Guarded (P B : ∀ {α : Type}, Parse α → Progress → Prop) : Prop extends Composes P where
  advance : ∀ {p : Progress} {l : Lexeme}, p.feed.current.lexeme = l → l.isPlain = true →
    P advance p
  opener : ∀ {n : Nat} {w : Keyword} {p : Progress}, p.feed.current.lexeme = .keyword w →
    (Lexeme.keyword w).opens = true → B (form n w) (.start p.feed) → P (Parse.part (form n w)) p
  exhaustedBehind : ∀ {α : Type} (p : Progress), B (Parse.exhausted : Parse α) p
  bindBehind : ∀ {α β : Type} {x : Parse α} {k : α → Parse β} {p : Progress},
    B x p → (∀ a q, P (k a) q) → B (x >>= k) p
  partBehind : ∀ {α : Type} {x : Parse α} {p : Progress}, B x (.start p.feed) → B (Parse.part x) p
  keywordBehind : ∀ {β : Type} {w : Keyword} {k : Unit → Parse β} {p : Progress},
    w ≠ .importKw → (∀ q, P (k ()) q) → B (keyword w >>= k) p
  varBehind : ∀ {β : Type} {k : Unit → Parse β} {p : Progress},
    (∀ q, B (k ()) q) → B (optionalVar >>= k) p

namespace Guarded

variable {P B : ∀ {α : Type}, Parse α → Progress → Prop} (h : Guarded P B)

include h

theorem keyword {w : Keyword} (hw : (Lexeme.keyword w).isPlain = true) (p : Progress) :
    P (keyword w) p :=
  h.keyword_of_advance fun hl => h.advance hl hw

theorem optionalVar (p : Progress) : P optionalVar p :=
  h.optionalVar_of_advance fun hv => h.advance rfl (Lexeme.isPlain_of_isVarText hv)

theorem identifier (details : String) (p : Progress) : P (identifier details) p := by
  apply h.current
  split
  · next hl => exact h.bind (h.advance hl rfl) fun _ q => h.ret _ q
  · exact h.reject _ p

theorem assignSign (p : Progress) : P assignSign p := by
  apply h.lexeme
  split
  · next hl => exact h.advance hl rfl
  · exact h.reject _ p

theorem functionName (p : Progress) : P functionName p := by
  apply h.lexeme
  split
  · exact h.map (h.identifier _ p)
  · exact h.ret _ p

theorem openParams (named : Bool) (p : Progress) : P (openParams named) p := by
  apply h.lexeme
  split
  · next hl => exact h.advance hl rfl
  · exact h.reject _ p

theorem moreParams (n : Nat) (p : Progress) : P (moreParams n) p := by
  induction n generalizing p with
  | zero => exact h.exhausted p
  | succ n ih =>
    rw [Parse.moreParams]
    apply h.lexeme
    split
    · next hl =>
      refine h.bind (h.advance hl rfl) fun _ q => h.bind (h.identifier _ q) fun _ q => ?_
      exact h.bind (ih q) fun _ q => h.ret _ q
    · exact h.ret _ p

theorem params (n : Nat) (p : Progress) : P (params n) p := by
  apply h.lexeme
  split
  · refine h.bind (h.identifier _ p) fun _ q => h.bind (h.moreParams n q) fun _ q => h.lexeme ?_
    split
    · next hl => exact h.bind (h.advance hl rfl) fun _ q => h.ret _ q
    · exact h.reject _ q
  · next hl => exact h.bind (h.advance hl rfl) fun _ q => h.ret _ q
  · exact h.reject _ p

theorem loopStep {x : Parse Node} (hx : ∀ q, P x q) (p : Progress) : P (loopStep x) p := by
  refine h.ifKeyword (fun hl => ?_) (h.ret _ p)
  refine h.bind (h.advance hl rfl) fun _ q => h.bind (h.part (hx _)) fun _ q => ?_
  exact h.ret _ q

end Guarded

/-- Every production with the given fuel has its property. A case has it if the word in front of
it does. -/
structure Shared (P B : ∀ {α : Type}, Parse α → Progress → Prop) (n : Nat) : Prop where
  statements : ∀ p, P (statements n) p
  moreStatements : ∀ p, P (moreStatements n) p
  statement : ∀ p, P (statement n) p
  expression : ∀ p, P (expression n) p
  negation : ∀ p, P (negation n) p
  chain : ∀ level p, P (chain n level) p
  moreOperands : ∀ level left p, P (moreOperands n level left) p
  operand : ∀ level p, P (operand n level) p
  factor : ∀ p, P (factor n) p
  call : ∀ p, P (call n) p
  moreItems : ∀ p, P (moreItems n) p
  atom : ∀ p, P (atom n) p
  listLiteral : ∀ p, P (listLiteral n) p
  branch : ∀ p, B (branch n) p
  casesBehind : ∀ lead, lead ≠ .importKw → ∀ p, B (cases n lead) p
  cases : ∀ lead, (∀ q, P (keyword lead) q) → ∀ p, P (cases n lead) p
  moreCases : ∀ p, P (moreCases n) p
  fallback : ∀ p, P (fallback n) p
  loopBody : ∀ p, P (loopBody n) p
  forLoop : ∀ p, B (forLoop n) p
  whileLoop : ∀ p, B (whileLoop n) p
  function : ∀ p, B (function n) p

namespace Shared

variable {P B : ∀ {α : Type}, Parse α → Progress → Prop} (h : Guarded P B)

include h in
theorem zero : Shared P B 0 := by
  constructor
  case branch | casesBehind | forLoop | whileLoop | function =>
    intros
    exact h.exhaustedBehind _
  all_goals
    intros
    exact h.exhausted _

variable (ih : Shared P B n)

include h ih

theorem statements_succ (p : Progress) : P (Parse.statements (n + 1)) p := by
  rw [Parse.statements]
  refine h.current <| h.bind (h.newlines p) fun _ q => ?_
  refine h.bind (h.part (ih.statement _)) fun _ q => h.bind (ih.moreStatements q) fun _ q => ?_
  exact h.current (h.ret _ q)

theorem moreStatements_succ (p : Progress) : P (Parse.moreStatements (n + 1)) p := by
  rw [Parse.moreStatements]
  apply h.bind (h.newlines p)
  intro count q
  split
  · exact h.ret _ q
  · apply h.bind (h.attempt (ih.statement _))
    intro s q
    cases s with
    | none => exact h.ret _ q
    | some s => exact h.bind (ih.moreStatements q) fun _ q => h.ret _ q

theorem statement_succ (p : Progress) : P (Parse.statement (n + 1)) p := by
  have hvalue (q : Progress) := h.attempt (p := q) (ih.expression (.start q.feed))
  rw [Parse.statement]
  refine h.current <| h.lexeme ?_
  split
  · next hl =>
    refine h.bind (h.advance hl rfl) fun _ q => h.bind (hvalue q) fun _ q => ?_
    exact h.current (h.ret _ q)
  · next hl =>
    refine h.bind (h.advance hl rfl) fun _ q => h.bind (hvalue q) fun _ q => ?_
    exact h.current (h.ret _ q)
  · next hl => exact h.bind (h.advance hl rfl) fun _ q => h.current (h.ret _ q)
  · next hl => exact h.bind (h.advance hl rfl) fun _ q => h.current (h.ret _ q)
  · exact h.partOr _ (ih.expression _)

theorem expression_succ (p : Progress) : P (Parse.expression (n + 1)) p := by
  rw [Parse.expression]
  apply h.lexeme
  split
  · next hl =>
    refine h.bind (h.advance hl rfl) fun _ q => h.bind (h.identifier _ q) fun _ q => ?_
    refine h.bind (h.assignSign q) fun _ q => h.bind (h.part (ih.expression _)) fun _ q => ?_
    exact h.ret _ q
  · next hl => exact h.importForm hl
  · exact h.partOr _ (ih.chain _ _)

theorem negation_succ (p : Progress) : P (Parse.negation (n + 1)) p := by
  rw [Parse.negation]
  apply h.current
  split
  · next hl =>
    refine h.bind (h.advance hl rfl) fun _ q => h.bind (h.part (ih.negation _)) fun _ q => ?_
    exact h.ret _ q
  · exact h.partOr _ (ih.chain _ _)

theorem chain_succ (level : Level) (p : Progress) : P (Parse.chain (n + 1) level) p := by
  rw [Parse.chain]
  exact h.bind (h.part (ih.operand level _)) fun first q => ih.moreOperands level first q

theorem moreOperands_succ (level : Level) (left : Node) (p : Progress) :
    P (Parse.moreOperands (n + 1) level left) p := by
  have hright (q : Progress) : P (rightOperand n level) q := by
    cases level
    case power => exact ih.factor q
    all_goals exact ih.operand _ q
  rw [Parse.moreOperands_succ]
  apply h.lexeme
  split
  · exact h.ret _ p
  · next op hop =>
    have hplain : p.feed.current.lexeme.isPlain = true := by
      unfold Level.op? at hop
      split at hop
      case h_16 => cases hop
      all_goals next hl => rw [hl]; rfl
    refine h.bind (h.advance rfl hplain) fun _ q => h.bind (h.part (hright _)) fun _ q => ?_
    exact ih.moreOperands level _ q

omit h in
theorem operand_succ (level : Level) (p : Progress) : P (Parse.operand (n + 1) level) p := by
  cases level <;> rw [Parse.operand]
  · exact ih.negation p
  · exact ih.chain _ p
  · exact ih.chain _ p
  · exact ih.factor p
  · exact ih.call p

theorem factor_succ (p : Progress) : P (Parse.factor (n + 1)) p := by
  have hsigned (q : Progress) := h.part (p := q) (ih.factor (.start q.feed))
  rw [Parse.factor]
  apply h.current
  split
  · next hl =>
    exact h.bind (h.advance hl rfl) fun _ q => h.bind (hsigned q) fun _ q => h.ret _ q
  · next hl =>
    exact h.bind (h.advance hl rfl) fun _ q => h.bind (hsigned q) fun _ q => h.ret _ q
  · exact ih.chain _ p

theorem items {details : String} {k : Node → List Node → Parse α}
    (hk : ∀ first others q, P (k first others) q) (p : Progress) :
    P (do
      let first ← partOr details (Parse.expression n)
      let others ← Parse.moreItems n
      k first others) p := by
  refine h.bind (h.partOr _ (ih.expression _)) fun first q => ?_
  exact h.bind (ih.moreItems q) fun others q => hk first others q

theorem call_succ (p : Progress) : P (Parse.call (n + 1)) p := by
  rw [Parse.call]
  refine h.bind (h.part (ih.atom _)) fun callee q => h.lexeme ?_
  split
  · next hl =>
    refine h.bind (h.advance hl rfl) fun _ q => h.lexeme ?_
    split
    · next hl => exact h.bind (h.advance hl rfl) fun _ q => h.ret _ q
    · refine items h ih (fun _ _ q => h.lexeme ?_) q
      split
      · next hl => exact h.bind (h.advance hl rfl) fun _ q => h.ret _ q
      · exact h.reject _ q
  · exact h.ret _ q

theorem moreItems_succ (p : Progress) : P (Parse.moreItems (n + 1)) p := by
  rw [Parse.moreItems]
  apply h.lexeme
  split
  · next hl =>
    refine h.bind (h.advance hl rfl) fun _ q => ?_
    refine h.bind (h.part (ih.expression _)) fun _ q => ?_
    exact h.bind (ih.moreItems q) fun _ q => h.ret _ q
  · exact h.ret _ p

theorem atom_succ (p : Progress) : P (Parse.atom (n + 1)) p := by
  rw [Parse.atom]
  apply h.current
  split
  case h_5 hl =>
    refine h.bind (h.advance hl rfl) fun _ q => ?_
    refine h.bind (h.part (ih.expression _)) fun _ q => h.lexeme ?_
    split
    · next hl => exact h.bind (h.advance hl rfl) fun _ q => h.ret _ q
    · exact h.reject _ q
  case h_6 => exact h.part (ih.listLiteral _)
  case h_7 hl => exact h.opener hl rfl (ih.branch _)
  case h_8 hl => exact h.opener hl rfl (ih.forLoop _)
  case h_9 hl => exact h.opener hl rfl (ih.whileLoop _)
  case h_10 hl => exact h.opener hl rfl (ih.function _)
  case h_11 => exact h.reject _ p
  all_goals
    next hl => exact h.bind (h.advance hl rfl) fun _ q => h.ret _ q

theorem listLiteral_succ (p : Progress) : P (Parse.listLiteral (n + 1)) p := by
  rw [Parse.listLiteral]
  refine h.current <| h.lexeme ?_
  dsimp only
  split
  · next hl =>
    refine h.bind (h.advance hl rfl) fun _ q => h.lexeme ?_
    split
    · next hl => exact h.bind (h.advance hl rfl) fun _ q => h.current (h.ret _ q)
    · refine items h ih (fun _ _ q => h.lexeme ?_) q
      split
      · next hl => exact h.bind (h.advance hl rfl) fun _ q => h.current (h.ret _ q)
      · exact h.reject _ q
  · exact h.reject _ p

theorem branch_succ (p : Progress) : B (Parse.branch (n + 1)) p := by
  rw [Parse.branch]
  exact h.bindBehind (h.partBehind (ih.casesBehind .ifKw (by decide) _)) fun _ q => h.ret _ q

theorem caseTail (p : Progress) : P (caseTail n) p := by
  have hmore (q : Progress) := h.part (p := q) (ih.moreCases (.start q.feed))
  refine h.bind (h.part (ih.expression _)) fun _ q => ?_
  refine h.bind (h.keyword (w := .thenKw) rfl q) fun _ q => h.lexeme ?_
  split
  · next hl =>
    refine h.bind (h.advance hl rfl) fun _ q => ?_
    refine h.bind (h.part (ih.statements _)) fun _ q => ?_
    refine h.ifKeyword (fun hl => ?_) ?_
    · exact h.bind (h.advance hl rfl) fun _ q => h.ret _ q
    · exact h.bind (hmore q) fun _ q => h.ret _ q
  · refine h.bind (h.part (ih.statement _)) fun _ q => h.bind (hmore q) fun _ q => ?_
    exact h.ret _ q

theorem cases_succ (lead : Keyword) (hlead : ∀ q, P (keyword lead) q) (p : Progress) :
    P (Parse.cases (n + 1) lead) p := by
  rw [Parse.cases_succ]
  refine h.bind (h.optionalVar p) fun _ q => h.bind (hlead q) fun _ q => ?_
  exact caseTail h ih q

theorem casesBehind_succ (lead : Keyword) (hlead : lead ≠ .importKw) (p : Progress) :
    B (Parse.cases (n + 1) lead) p := by
  rw [Parse.cases_succ]
  exact h.varBehind fun _ => h.keywordBehind hlead (caseTail h ih)

theorem moreCases_succ (p : Progress) : P (Parse.moreCases (n + 1)) p := by
  rw [Parse.moreCases]
  refine h.ifKeyword (fun _ => h.part (ih.cases .elifKw (h.keyword rfl) _)) ?_
  exact h.bind (h.part (ih.fallback _)) fun _ q => h.ret _ q

theorem block {k : Node → Parse α} (hl : p.feed.current.lexeme = .newline)
    (hk : ∀ a q, P (k a) q) :
    P (do advance; let body ← part (Parse.statements n); keyword .endKw; k body) p := by
  refine h.bind (h.advance hl rfl) fun _ q => ?_
  refine h.bind (h.part (ih.statements _)) fun body q => ?_
  exact h.bind (h.keyword rfl q) fun _ q => hk body q

theorem fallback_succ (p : Progress) : P (Parse.fallback (n + 1)) p := by
  rw [Parse.fallback]
  refine h.ifKeyword (fun hl => ?_) (h.ret _ p)
  refine h.bind (h.advance hl rfl) fun _ q => h.lexeme ?_
  split
  · next hl => exact block h ih hl fun _ q => h.ret _ q
  · exact h.bind (h.part (ih.statement _)) fun _ q => h.ret _ q

theorem loopBody_succ (p : Progress) : P (Parse.loopBody (n + 1)) p := by
  rw [Parse.loopBody]
  refine h.bind (h.keyword rfl p) fun _ q => h.lexeme ?_
  split
  · next hl => exact block h ih hl fun _ q => h.ret _ q
  · exact h.bind (h.part (ih.statement _)) fun _ q => h.ret _ q

theorem forLoop_succ (p : Progress) : B (Parse.forLoop (n + 1)) p := by
  have hvalue (q : Progress) := h.part (p := q) (ih.expression (.start q.feed))
  rw [Parse.forLoop]
  refine h.keywordBehind (by decide) fun q => h.bind (h.optionalVar q) fun _ q => ?_
  refine h.bind (h.identifier _ q) fun _ q => h.bind (h.assignSign q) fun _ q => ?_
  refine h.bind (hvalue q) fun _ q => h.bind (h.keyword rfl q) fun _ q => ?_
  refine h.bind (hvalue q) fun _ q => h.bind (h.loopStep ih.expression q) fun _ q => ?_
  exact h.bind (ih.loopBody q) fun _ q => h.ret _ q

theorem whileLoop_succ (p : Progress) : B (Parse.whileLoop (n + 1)) p := by
  rw [Parse.whileLoop]
  refine h.keywordBehind (by decide) fun q => h.bind (h.part (ih.expression _)) fun _ q => ?_
  exact h.bind (ih.loopBody q) fun _ q => h.ret _ q

theorem function_succ (p : Progress) : B (Parse.function (n + 1)) p := by
  rw [Parse.function]
  refine h.keywordBehind (by decide) fun q => h.bind (h.functionName q) fun _ q => ?_
  refine h.bind (h.openParams _ q) fun _ q => h.bind (h.params n q) fun _ q => h.lexeme ?_
  split
  · next hl =>
    refine h.bind (h.advance hl rfl) fun _ q => ?_
    exact h.bind (h.part (ih.expression _)) fun _ q => h.ret _ q
  · next hl => exact block h ih hl fun _ q => h.ret _ q
  · exact h.reject _ q

theorem succ : Shared P B (n + 1) where
  statements := statements_succ h ih
  moreStatements := moreStatements_succ h ih
  statement := statement_succ h ih
  expression := expression_succ h ih
  negation := negation_succ h ih
  chain := chain_succ h ih
  moreOperands := moreOperands_succ h ih
  operand := operand_succ ih
  factor := factor_succ h ih
  call := call_succ h ih
  moreItems := moreItems_succ h ih
  atom := atom_succ h ih
  listLiteral := listLiteral_succ h ih
  branch := branch_succ h ih
  casesBehind := casesBehind_succ h ih
  cases := cases_succ h ih
  moreCases := moreCases_succ h ih
  fallback := fallback_succ h ih
  loopBody := loopBody_succ h ih
  forLoop := forLoop_succ h ih
  whileLoop := whileLoop_succ h ih
  function := function_succ h ih

end Shared

theorem Guarded.shared {P B : ∀ {α : Type}, Parse α → Progress → Prop} (h : Guarded P B)
    (n : Nat) : Shared P B n := by
  induction n with
  | zero => exact .zero h
  | succ n ih => exact .succ h ih

namespace Closed

variable {P : ∀ {α : Type}, Parse α → Progress → Prop} (h : Closed P)

include h

theorem keyword {w : Keyword} (hw : w ≠ .importKw) (p : Progress) : P (keyword w) p :=
  h.keyword_of_advance fun hl => h.advance hl (by simpa using hw)

theorem optionalVar (p : Progress) : P optionalVar p :=
  h.optionalVar_of_advance fun hv =>
    h.advance rfl (Lexeme.ne_of_isPlain (Lexeme.isPlain_of_isVarText hv))

/-- If words that open forms may be passed anywhere, forms need no other property. -/
theorem guarded : Guarded P P where
  toComposes := h.toComposes
  advance hl hplain := h.advance hl (Lexeme.ne_of_isPlain hplain)
  opener _ _ := h.part
  exhaustedBehind := h.exhausted
  bindBehind := h.bind
  partBehind := h.part
  keywordBehind hw hk := h.bind (h.keyword hw _) fun _ => hk
  varBehind hk := h.bind (h.optionalVar _) fun _ => hk

theorem shared (n : Nat) : Shared P P n := h.guarded.shared n

theorem program (n : Nat) (p : Progress) : P (program n) p := by
  refine h.bind ((h.shared n).statements p) fun _ q => h.lexeme ?_
  split
  · exact h.ret _ q
  · exact h.reject _ q

theorem production (production : Production) (n : Nat) (p : Progress)
    (hlead : ∀ lead w, production = .cases lead → Keyword.ofText? lead = some w →
      ∀ q, P (Parse.keyword w) q) : P (production.run n) p := by
  have ih := h.shared n
  cases production with
  | program => exact h.map (h.program n p)
  | statements => exact h.map (ih.statements p)
  | statement => exact h.map (ih.statement p)
  | expression => exact h.map (ih.expression p)
  | negation => exact h.map (ih.negation p)
  | sum => exact h.map (ih.chain .sum p)
  | product => exact h.map (ih.chain .product p)
  | factor => exact h.map (ih.factor p)
  | power => exact h.map (ih.chain .power p)
  | call => exact h.map (ih.call p)
  | atom => exact h.map (ih.atom p)
  | listLiteral => exact h.map (ih.listLiteral p)
  | branch => exact h.map (ih.branch p)
  | moreCases => exact h.map (ih.moreCases p)
  | fallback => exact h.map (ih.fallback p)
  | forLoop => exact h.map (ih.forLoop p)
  | whileLoop => exact h.map (ih.whileLoop p)
  | function => exact h.map (ih.function p)
  | cases lead =>
    apply h.map
    split
    · next w hw => exact ih.cases w (hlead lead w rfl hw) p
    · exact h.bind (h.optionalVar p) fun _ q => h.reject _ q

end Closed

end Parse

end Think
