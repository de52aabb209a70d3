import Think.Library
import Think.Proofs.Parse.Completeness
import Think.Proofs.Program.Lines
import Think.Proofs.Text.Lines

/-! # The tree of the text library

The words of a text are found line by line, so the tree of a longer program is known once the words
of each of its lines are. Here this is done for the program that a session imports as `string`.
-/

namespace Think

deriving instance DecidableEq for Lexeme

namespace Source

open Scanner

variable {l : String} {ls : List Lexeme}

def closedLexemes? (source : Source) : Option (List Lexeme) :=
  match source.tokens with
  | .ok ts => if ∀ t ∈ ts, t.Closed then some (ts.map (·.lexeme)) else none
  | .error _ => none

structure HasWords (l : String) (ls : List Lexeme) : Prop where
  lexemes : (⟨"", l⟩ : Source).closedLexemes? = some (ls ++ [.endOfText])
  detached : Detached ('\n' :: l.toList)

theorem HasWords.exists_tokens (h : HasWords l ls) : ∃ ts, (⟨"", l⟩ : Source).tokens = .ok ts ∧
    ts.map (·.lexeme) = ls ++ [.endOfText] ∧ ∀ t ∈ ts, t.Closed := by
  have hl := h.lexemes
  unfold closedLexemes? at hl
  split at hl
  · next ts hts =>
    split at hl
    · next hclosed => exact ⟨ts, hts, Option.some.inj hl, hclosed⟩
    · cases hl
  · cases hl

theorem hasWords_comment {cs : List Char} (h : '\n' ∉ cs) :
    HasWords (String.ofList ('#' :: cs)) [] := by
  let s := ofSource ⟨"", String.ofList ('#' :: cs)⟩
  have hs : s.rest = '#' :: cs := String.toList_ofList
  have hrest : s.comment.rest = [] := by
    have htake : cs.takeWhile (· ≠ '\n') = cs :=
      List.takeWhile_eq_self_iff.mpr fun c hc => by simpa using ne_of_mem_of_not_mem hc h
    rw [comment, readWhile, rest_advance hs, htake, rest_skip, rest_advance hs, List.drop_length]
  have htokens : (⟨"", String.ofList ('#' :: cs)⟩ : Source).tokens =
      .ok [.single .endOfText s.comment.place] :=
    (tokensFrom_step hs rfl).trans (tokensFrom_nil hrest)
  constructor
  · rw [closedLexemes?, htokens]
    rfl
  · rw [String.toList_ofList]
    exact .line (by simp) (by simp)

/-- A line that starts with neither an equals sign nor a plus is not taken for a continuation. -/
theorem hasWords_of_lexemes (h : (⟨"", l⟩ : Source).closedLexemes? = some (ls ++ [.endOfText]))
    (hequals : l.toList.head? ≠ some '=') (hplus : l.toList.head? ≠ some '+') : HasWords l ls := by
  refine ⟨h, .line hequals ?_⟩
  rintro t ht
  rw [ht] at hplus
  exact hplus rfl

theorem HasWords.detached_lines (h : HasWords l ls) (lines : List String) :
    Detached ('\n' :: ("\n".intercalate (l :: lines)).toList) := by
  cases lines with
  | nil =>
    rw [String.intercalate_singleton]
    exact h.detached
  | cons l' lines =>
    rw [String.intercalate_cons_cons, String.toList_append, String.toList_append, List.append_assoc]
    exact h.detached.append

/-- The words of a text are those of its lines, with a line break between them. -/
theorem tokens_lines (name : String) {lines : List String} {lss : List (List Lexeme)}
    (h : List.Forall₂ HasWords (l :: lines) (ls :: lss)) :
    ∃ ts, (⟨name, "\n".intercalate (l :: lines)⟩ : Source).tokens = .ok ts ∧
      ts.map (·.lexeme) = [Lexeme.newline].intercalate (ls :: lss) ++ [.endOfText] := by
  induction lines generalizing l ls lss name with
  | nil =>
    obtain ⟨hl, hnil⟩ := List.forall₂_cons.mp h
    cases hnil
    obtain ⟨ts, hts, hmap, -⟩ := hl.exists_tokens
    have halong : Along [] (ofSource ⟨"", l⟩) (ofSource ⟨name, l⟩) :=
      ⟨by simp [ofSource], sits_ofSource _, sits_ofSource _⟩
    obtain ⟨ls', ts', hts', -, hmap', hagain⟩ := tokensFrom_again [] [] halong rfl hts
    rw [String.intercalate_singleton, List.intercalate_singleton]
    exact ⟨ts', hts', hagain.trans (hmap'.symm.trans hmap)⟩
  | cons l' lines ih =>
    obtain ⟨hl, hlines⟩ := List.forall₂_cons.mp h
    obtain _ | ⟨ls', lss⟩ := lss
    · cases hlines
    obtain ⟨ta, hta, hmapa, hclosed⟩ := hl.exists_tokens
    obtain ⟨tb, htb, hmapb⟩ := ih "" hlines
    have hd := (List.forall₂_cons.mp hlines).1.detached_lines lines
    obtain ⟨la, lb, tc, -, -, hla, hlb, htc, hmapc⟩ := tokens_concat hta htb
      (c := ⟨name, "\n".intercalate (l :: l' :: lines)⟩) String.intercalate_cons_cons hclosed hd
    obtain rfl : la = ls := List.append_cancel_right (hla.symm.trans hmapa)
    obtain rfl := List.append_cancel_right (hlb.symm.trans hmapb)
    refine ⟨tc, htc, hmapc.trans ?_⟩
    rw [List.intercalate_cons_cons]
    simp

end Source

namespace Text

theorem unifyBreaks_eq_self {cs : List Char} (h : '\r' ∉ cs) : unifyBreaks cs = cs := by
  induction cs with
  | nil => rfl
  | cons c cs ih =>
    rw [List.mem_cons, not_or] at h
    obtain ⟨hc, hcs⟩ := h
    rw [unifyBreaks, if_neg (Ne.symm hc), ih hcs]
    rintro rest rfl
    exact absurd rfl hc

theorem not_mem_intercalate {c : Char} {sep : String} (hsep : c ∉ sep.toList) {lines : List String}
    (h : ∀ l ∈ lines, c ∉ l.toList) : c ∉ (sep.intercalate lines).toList := by
  induction lines with
  | nil => simp
  | cons l lines ih =>
    obtain ⟨hl, hlines⟩ := List.forall_mem_cons.mp h
    cases lines with
    | nil => rwa [String.intercalate_singleton]
    | cons l' lines =>
      rw [String.intercalate_cons_cons, String.toList_append, String.toList_append]
      simp only [List.mem_append, not_or]
      exact ⟨⟨hl, hsep⟩, ih hlines⟩

end Text

namespace Library

theorem unified_lines {lines : List String} (h : ∀ l ∈ lines, '\r' ∉ l.toList) :
    Text.unified ("\n".intercalate lines) = "\n".intercalate lines := by
  rw [Text.unified, Text.unifyBreaks_eq_self (Text.not_mem_intercalate (by decide) h),
    String.ofList_toList]

theorem unified_stringLines :
    Text.unified ("\n".intercalate stringLines) = "\n".intercalate stringLines := by
  apply unified_lines
  simp only [stringLines, List.forall_mem_cons, List.not_mem_nil, false_implies, implies_true,
    and_true]
  repeat' apply And.intro
  all_goals exact Text.notMem_of_chars (by decide)

def stringLexemes : List (List Lexeme) :=
  let var : Lexeme := .keyword .varKw
  [[], [],
    [var, .name "ascii_lowercase", .assign, .text "abcdefghijklmnopqrstuvwxyz"],
    [var, .name "ascii_uppercase", .assign, .text "ABCDEFGHIJKLMNOPQRSTUVWXYZ"],
    [var, .name "ascii_letters", .assign, .name "ascii_lowercase", .plus, .name "ascii_uppercase"],
    [var, .name "digits", .assign, .text "0123456789"],
    [var, .name "hexdigits", .assign, .name "digits", .plus, .text "abcdef", .plus, .text "ABCDEF"],
    [], [],
    [.keyword .funcKw, .name "reverse_string", .openParen, .name "inp", .closeParen],
    [var, .name "res", .assign, .text ""],
    [.keyword .forKw, var, .name "i", .assign, .name "len", .openParen, .name "inp", .closeParen,
      .minus, .int 1, .keyword .toKw, .minus, .int 1, .keyword .stepKw, .minus, .int 1,
      .keyword .doKw],
    [var, .name "res", .assign, .name "res", .plus, .openParen, .name "inp", .greater, .name "i",
      .closeParen],
    [.keyword .endKw], [.keyword .returnKw, .name "res"], [.keyword .endKw],
    [], [], [], [], []]

theorem hasWords_stringLines : List.Forall₂ Source.HasWords stringLines stringLexemes := by
  have hcomment {cs : List Char} (h : '\n' ∉ cs) := Source.hasWords_comment h
  have hcode : List.Forall₂ (fun l ls =>
      (⟨"", l⟩ : Source).closedLexemes? = some (ls ++ [.endOfText]) ∧
        l.toList.head? ≠ some '=' ∧ l.toList.head? ≠ some '+')
      ((stringLines.drop 1).take 16) ((stringLexemes.drop 1).take 16) := by
    decide +kernel
  refine .cons (hcomment (by decide)) ?_
  refine List.rel_append (hcode.imp fun l ls h => Source.hasWords_of_lexemes h.1 h.2.1 h.2.2) ?_
  exact .cons (hcomment (by decide)) (.cons (hcomment (by decide)) (.cons (hcomment (by decide))
    (.cons (hcomment (by decide)) .nil)))

def reverseRound : Node :=
  .list default [.assign default "res" (.binary default .add (.access default "res")
    (.binary default .gt (.access default "inp") (.access default "i")))]

def reverseLoop : Node :=
  .forLoop default "i"
    (.binary default .sub (.call default (.access default "len") [.access default "inp"])
      (.number default (.int 1)))
    (.unary default .minus (.number default (.int 1)))
    (some (.unary default .minus (.number default (.int 1)))) reverseRound true

def reverseBody : Node :=
  .list default [.assign default "res" (.text default ""), reverseLoop,
    .ret default (some (.access default "res"))]

def stringStatements : List Node :=
  [.assign default "ascii_lowercase" (.text default "abcdefghijklmnopqrstuvwxyz"),
    .assign default "ascii_uppercase" (.text default "ABCDEFGHIJKLMNOPQRSTUVWXYZ"),
    .assign default "ascii_letters" (.binary default .add (.access default "ascii_lowercase")
      (.access default "ascii_uppercase")),
    .assign default "digits" (.text default "0123456789"),
    .assign default "hexdigits" (.binary default .add (.binary default .add
      (.access default "digits") (.text default "abcdef")) (.text default "ABCDEF")),
    .function default (some "reverse_string") ["inp"] reverseBody false]

section

variable {p : Place}

theorem prints_name (x : String) : Prints (.operand p (.access default x)) [.name x] :=
  .bare (show p ≤ .atom by cases p <;> decide) (.access x)

theorem prints_text (t : String) : Prints (.operand p (.text default t)) [.text t] :=
  .bare (show p ≤ .atom by cases p <;> decide) (.text t)

theorem prints_int (n : Nat) : Prints (.operand p (.number default (.int n))) [.int n] :=
  .bare (show p ≤ .atom by cases p <;> decide) (.number (.int n))

theorem prints_binary (op : BinaryOp) {x y : Node} {a b : List Lexeme} (hp : p ≤ op.level.place)
    (hx : Prints (.operand op.level.leftPlace x) a)
    (hy : Prints (.operand op.level.rightPlace y) b) :
    Prints (.operand p (.binary default op x y)) (a ++ op.lexeme :: b) :=
  .bare hp (.binary hx hy)

theorem prints_assign {x : String} {e : Node} {a : List Lexeme} (h : Prints (.operand .logic e) a) :
    Prints (.statement .whole (.assign default x e))
      (.keyword .varKw :: .name x :: .assign :: a) :=
  .statement (.bare (show Place.whole ≤ .whole by decide) (.assign h))

end

def wordsOf (lines : List (List Lexeme)) : List Lexeme := (lines.map (· ++ [.newline])).flatten

theorem prints_reverseLoop : Prints (.statement .whole reverseLoop)
    (wordsOf ((stringLexemes.drop 11).take 2) ++ [.keyword .endKw]) := by
  have hone : Prints (.operand .logic (.unary default .minus (.number default (.int 1))))
      [.minus, .int 1] := .bare (by decide) (.unary (prints_int 1))
  have hlen : Prints (.operand .sum (.call default (.access default "len") [.access default "inp"]))
      [.name "len", .openParen, .name "inp", .closeParen] :=
    .bare (by decide) (.call (prints_name "len") (.items (prints_name "inp") .noMoreItems))
  have hfirst : Prints (.operand .logic (.binary default .sub (.call default (.access default "len")
      [.access default "inp"]) (.number default (.int 1))))
      [.name "len", .openParen, .name "inp", .closeParen, .minus, .int 1] :=
    prints_binary .sub (by decide) hlen (prints_int 1)
  have hindex : Prints (.operand .product (.binary default .gt (.access default "inp")
      (.access default "i"))) [.openParen, .name "inp", .greater, .name "i", .closeParen] :=
    .paren (prints_binary .gt (by decide) (prints_name "inp") (prints_name "i"))
  have hsum : Prints (.operand .logic (.binary default .add (.access default "res")
      (.binary default .gt (.access default "inp") (.access default "i"))))
      [.name "res", .plus, .openParen, .name "inp", .greater, .name "i", .closeParen] :=
    prints_binary .add (by decide) (prints_name "res") hindex
  have hvar : OptionalVar [.keyword .varKw] := .present rfl
  exact .statement (.bare (by decide) (.forLoop hvar (by simp) hfirst hone (.step hone)
    (.blockBody (.block 0 0 (.statements (prints_assign hsum) .noMoreStatements)))))

theorem prints_reverseBody : Prints (.block reverseBody)
    (.newline :: wordsOf ((stringLexemes.drop 10).take 5)) := by
  have hret : Prints (.statement .whole (.ret default (some (.access default "res"))))
      [.keyword .returnKw, .name "res"] := .valueReturn (prints_name "res")
  exact .block 0 0 (.statements (prints_assign (prints_text ""))
    (.moreStatements 0 prints_reverseLoop (.moreStatements 0 hret .noMoreStatements)))

theorem prints_stringStatements : Prints (.program stringStatements)
    ([Lexeme.newline].intercalate stringLexemes) := by
  have hletters : Prints (.operand .logic (.binary default .add (.access default "ascii_lowercase")
      (.access default "ascii_uppercase")))
      [.name "ascii_lowercase", .plus, .name "ascii_uppercase"] :=
    prints_binary .add (by decide) (prints_name _) (prints_name _)
  have hhexdigits : Prints (.operand .logic (.binary default .add (.binary default .add
      (.access default "digits") (.text default "abcdef")) (.text default "ABCDEF")))
      [.name "digits", .plus, .text "abcdef", .plus, .text "ABCDEF"] :=
    prints_binary .add (by decide) (prints_binary .add (by decide) (prints_name _) (prints_text _))
      (prints_text _)
  have hfunction : Prints (.statement .whole (.function default (some "reverse_string") ["inp"]
      reverseBody false)) _ := .statement (.bare (by decide) (.function prints_reverseBody))
  exact .program 2 5 (.statements (prints_assign (prints_text _))
    (.moreStatements 0 (prints_assign (prints_text _))
    (.moreStatements 0 (prints_assign hletters)
    (.moreStatements 0 (prints_assign (prints_text _))
    (.moreStatements 0 (prints_assign hhexdigits)
    (.moreStatements 2 hfunction .noMoreStatements))))))

/-- However the library's text is named, it is read as these statements. -/
theorem exists_stringTree (name : String) : ∃ tokens tree,
    (⟨name, "\n".intercalate stringLines⟩ : Source).tokens = .ok tokens ∧
      Node.ofTokens tokens = .ok tree ∧ tree.shape = .list default stringStatements := by
  obtain ⟨tokens, htokens, hlexemes⟩ := Source.tokens_lines name hasWords_stringLines
  obtain ⟨tree, htree, hshape⟩ := prints_stringStatements.ofTokens hlexemes
  exact ⟨tokens, tree, htokens, htree, hshape⟩

end Library

end Think
