import Think.Proofs.Parse.Closure
import Think.Proofs.Token.Concatenation

/-! # What is reported about a text

A text that cannot be read is rejected at a place of its own: the scanner reports characters, and
every production that fails says what it expected instead of a token.
-/

namespace Think

namespace Parse

variable {α β : Type} {x : Parse α} {k : α → Parse β} {p : Progress}

def AtToken (e : Rejection) : Prop := e = .exhausted ∨ ∃ t details, e = errorAt t details

def Blames (x : Parse α) : Prop := ∀ p e q, x p = (.error e, q) → AtToken e

def Located (x : Parse α) (p : Progress) : Prop :=
  ∀ e q, x p = (.error e, q) → e = .exhausted ∨ ∃ details, e = errorAt q.feed.current details

namespace Located

theorem bind (hx : Located x p) (hk : ∀ a q, Located (k a) q) : Located (x >>= k) p := by
  intro e q h
  rw [bind_apply] at h
  rcases hp : x p with ⟨e' | a, p'⟩
  · rw [hp] at h
    cases h
    exact hx _ _ hp
  · rw [hp] at h
    exact hk a _ _ _ h

theorem ret (a : α) : Located (pure a) p := by
  intro e q h
  cases h

theorem reject (details : String) : Located (reject details : Parse α) p := by
  intro e q h
  cases h
  exact .inr ⟨_, rfl⟩

theorem current {k : Token → Parse β} (h : Located (k p.feed.current) p) :
    Located (current >>= k) p := h

theorem advance : Located advance p := by
  intro e q h
  cases h

theorem importForm : Located importForm p := by
  refine advance.bind fun _ _ => current ?_
  split
  · exact advance.bind fun _ _ => ret _
  · exact reject _

theorem part (hx : Located x (.start p.feed)) : Located (part x) p := by
  intro e q h
  cases h' : x (.start p.feed) with
  | mk r q' =>
    rw [Parse.part, h'] at h
    cases h
    exact hx _ q' h'

theorem partOr (details : String) (hx : Located x (.start p.feed)) :
    Located (partOr details x) p := by
  intro e q h
  unfold Parse.partOr at h
  split at h
  · next q' hp =>
    split at h <;> cases h
    · exact .inr ⟨_, rfl⟩
    · exact hx _ q' hp
  · next q' _ hp =>
    cases h
    exact hx _ q' hp

theorem attempt (x : Parse α) : Located (attempt x) p := by
  intro e q h
  unfold Parse.attempt at h
  split at h
  · cases h
  · cases h
  · cases h
    exact .inl rfl

end Located

theorem closed_located : Closed Located where
  ret _ _ := .ret _
  exhausted _ e q h := by
    cases h
    exact .inl rfl
  reject _ _ := .reject _
  bind := .bind
  current := .current
  lexeme h := h
  advance _ _ := .advance
  importForm _ := .importForm
  newlines _ e q h := by cases h
  part := .part
  partOr _ := .partOr _
  attempt _ := .attempt _

theorem blames_program (n : Nat) : Blames (program n) := by
  intro p e q h
  exact (closed_located.program n p e q h).imp_right fun ⟨details, he⟩ => ⟨_, details, he⟩

end Parse

/-- The error is one in a text, at a place of it. -/
def Diagnostic.IsStatic (d : Diagnostic) : Prop :=
  ∃ kind span details, kind ≠ .runtime ∧ d = .static kind span details

theorem Diagnostic.IsStatic.isSome_message? {d : Diagnostic} (h : d.IsStatic) :
    d.message?.isSome = true := by
  obtain ⟨kind, span, details, hkind, rfl⟩ := h
  cases kind with
  | runtime => exact absurd rfl hkind
  | _ => rfl

theorem Node.isStatic_of_ofTokens {ts : List Token} {d : Diagnostic}
    (h : Node.ofTokens ts = .error (.invalid d)) : d.IsStatic := by
  cases ts with
  | nil => cases h
  | cons t rest =>
    rcases hp : Parse.runOn Parse.program ⟨t, rest⟩ with ⟨r, q⟩
    rw [Node.ofTokens, hp] at h
    obtain rfl : r = _ := h
    rcases Parse.blames_program _ _ _ _ hp with he | ⟨t, details, he⟩
    · cases he
    · cases he
      exact ⟨.invalidSyntax, _, _, nofun, rfl⟩

namespace Scanner

variable {s : Scanner} {d : Diagnostic}

theorem isStatic_of_notEquals {after : Scanner} (h : s.notEquals = (.error d, after)) :
    d.IsStatic := by
  unfold notEquals at h
  dsimp only at h
  split at h
  · cases h
  · cases h
    exact ⟨.expectedChar, _, _, nofun, rfl⟩

/-- Whatever is reported on reading on stands at a place. -/
def Reports (read : Scanner → Option Token → Except Failure (List Token × Scanner)) : Prop :=
  ∀ s previous? d, read s previous? = .error (.reported d) → d.IsStatic

theorem reports_readFrom (c : Char) : Reports fun s previous? => s.readFrom c previous? := by
  apply readFrom_cases
  case number =>
    intro s _ d h
    dsimp only at h
    split at h <;> cases h
  case mark =>
    intro s _ d h
    dsimp only at h
    split at h
    · cases h
    · next hmark =>
      cases h
      exact isStatic_of_notEquals hmark
  case illegal =>
    intro details s _ d h
    cases h
    exact ⟨.illegalChar, _, _, nofun, rfl⟩
  all_goals
    intros
    intro s _ d h
    cases h

theorem isStatic_of_readAll {fuel : Nat} {found : List Token}
    (h : s.readAll fuel found = .error (.reported d)) : d.IsStatic := by
  induction fuel generalizing s found with
  | zero => cases h
  | succ fuel ih =>
    rw [readAll] at h
    split at h
    · cases h
    · split at h
      · exact ih h
      · next hfrom =>
        cases h
        exact reports_readFrom _ _ _ _ hfrom

end Scanner

/-- What is reported about a text before it is evaluated stands at a place of the text. -/
theorem Source.isStatic_of_tokens {source : Source} {d : Diagnostic}
    (h : source.tokens = .error (.reported d)) : d.IsStatic :=
  Scanner.isStatic_of_readAll h

end Think
