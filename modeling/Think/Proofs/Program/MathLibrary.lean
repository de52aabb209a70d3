import Think.Proofs.Program.Importing

/-! # The tree of the library of numbers

The program that a session imports as `math`: a constant, functions for angles and the four
operations, and one that makes lists of random numbers. Its branches are chained by an `else` that
is followed by a branch in the same line, so the whole chain has one `end`. -/

namespace Think.Library

open Parse

theorem unified_mathLines :
    Text.unified ("\n".intercalate mathLines) = "\n".intercalate mathLines := by
  apply unified_lines
  simp only [mathLines, List.forall_mem_cons, List.not_mem_nil, false_implies, implies_true,
    and_true]
  repeat' apply And.intro
  all_goals exact Text.notMem_of_chars (by decide)

def operationLexemes (name : String) (op : Lexeme) : List (List Lexeme) :=
  [[.keyword .funcKw, .name name, .openParen, .name "a", .comma, .name "b", .closeParen],
    [.keyword .returnKw, .name "a", op, .name "b", .newline], [.keyword .endKw], []]

def angleLexemes : List (List Lexeme) :=
  [[.keyword .varKw, .name "PI", .assign, .float 3.141592653589793], [],
    [.keyword .funcKw, .name "degToRad", .openParen, .name "deg", .closeParen],
    [.keyword .returnKw, .name "deg", .times, .name "PI", .divide, .float 180.0, .newline],
    [.keyword .endKw], [],
    [.keyword .funcKw, .name "radToDeg", .openParen, .name "rad", .closeParen],
    [.keyword .returnKw, .name "rad", .times, .float 180.0, .divide, .name "PI", .newline],
    [.keyword .endKw], []]

def numberLexemes : List (List Lexeme) :=
  angleLexemes ++ operationLexemes "add" .plus ++ operationLexemes "sub" .minus ++
    operationLexemes "mul" .times ++ operationLexemes "div" .divide

def drawLexemes : List Lexeme := [.name "random", .openParen, .closeParen]

def loopLexemes : List Lexeme :=
  [.keyword .forKw, .keyword .varKw, .name "i", .assign, .int 0, .keyword .toKw, .name "size",
    .keyword .doKw]

def listLexemes : List (List Lexeme) :=
  [[.keyword .funcKw, .name "rand_list", .openParen, .name "size", .comma, .name "type",
      .closeParen],
    [.keyword .varKw, .name "res", .assign, .openSquare, .closeSquare],
    [.keyword .ifKw, .name "type", .equal, .name "int", .keyword .thenKw],
    loopLexemes,
    .keyword .varKw :: .name "gen" :: .assign :: (drawLexemes ++ [.times, .int 1000000]),
    [.name "append", .openParen, .name "res", .comma, .name "gen", .closeParen],
    [.keyword .endKw],
    [.keyword .elseKw, .keyword .ifKw, .name "type", .equal, .name "float", .keyword .thenKw],
    loopLexemes,
    .name "append" :: .openParen :: .name "res" :: .comma :: (drawLexemes ++ [.closeParen]),
    [.keyword .endKw], [.keyword .elseKw],
    [.name "error", .openParen, .text "Type not supported for rand_list", .closeParen],
    [.keyword .endKw], [], [.keyword .returnKw, .name "res"], [.keyword .endKw]]

theorem hasWords_mathLines :
    List.Forall₂ Source.HasWords mathLines (numberLexemes ++ [] :: listLexemes) := by
  have hcode : ∀ {lines : List String} {lss : List (List Lexeme)}, List.Forall₂ (fun l ls =>
      (⟨"", l⟩ : Source).closedLexemes? = some (ls ++ [.endOfText]) ∧
        l.toList.head? ≠ some '=' ∧ l.toList.head? ≠ some '+') lines lss →
      List.Forall₂ Source.HasWords lines lss :=
    fun h => h.imp fun l ls h => Source.hasWords_of_lexemes h.1 h.2.1 h.2.2
  have hnumbers : List.Forall₂ Source.HasWords (mathLines.take 26) numberLexemes :=
    hcode (by decide +kernel)
  have hlist : List.Forall₂ Source.HasWords (mathLines.drop 27) listLexemes :=
    hcode (by decide +kernel)
  exact List.rel_append hnumbers (.cons (Source.hasWords_comment (by decide)) hlist)

def operation (name : String) (op : BinaryOp) : Node :=
  .function default (some name) ["a", "b"] (.list default [.ret default
    (some (.binary default op (.access default "a") (.access default "b")))]) false

def drawCall : Node := .call default (.access default "random") []

def keepCall (e : Node) : Node :=
  .call default (.access default "append") [.access default "res", e]

def scaledRound : Node :=
  .list default [.assign default "gen" (.binary default .mul drawCall
    (.number default (.int 1000000))), keepCall (.access default "gen")]

def plainRound : Node := .list default [keepCall drawCall]

def drawLoop (round : Node) : Node :=
  .forLoop default "i" (.number default (.int 0)) (.access default "size") none round true

def kindTest (kind : String) : Node :=
  .binary default .eq (.access default "type") (.access default kind)

def refusal : Node :=
  .list default [.call default (.access default "error")
    [.text default "Type not supported for rand_list"]]

def plainBranch : Node :=
  .branch default [(kindTest "float", .list default [drawLoop plainRound], true)]
    (some (refusal, true))

def kindBranch : Node :=
  .branch default [(kindTest "int", .list default [drawLoop scaledRound], true)]
    (some (plainBranch, false))

def randListBody : Node :=
  .list default [.assign default "res" (.list default []), kindBranch,
    .ret default (some (.access default "res"))]

def mathStatements : List Node :=
  [.assign default "PI" (.number default (.float 3.141592653589793)),
    .function default (some "degToRad") ["deg"] (.list default [.ret default (some (.binary default
      .div (.binary default .mul (.access default "deg") (.access default "PI"))
      (.number default (.float 180.0))))]) false,
    .function default (some "radToDeg") ["rad"] (.list default [.ret default (some (.binary default
      .div (.binary default .mul (.access default "rad") (.number default (.float 180.0)))
      (.access default "PI")))]) false,
    operation "add" .add, operation "sub" .sub, operation "mul" .mul, operation "div" .div,
    .function default (some "rand_list") ["size", "type"] randListBody false]

section

variable {p : Place} {a : List Lexeme}

theorem prints_float (x : Float) : Prints (.operand p (.number default (.float x))) [.float x] :=
  .bare (show p ≤ .atom by cases p <;> decide) (.number (.float x))

theorem prints_returning (name : String) (params : List String) {e : Node}
    (h : Prints (.operand .logic e) a) :
    Prints (.statement .whole (.function default (some name) params
      (.list default [.ret default (some e)]) false))
      (.keyword .funcKw :: .name name :: .openParen :: (paramLexemes params ++ .closeParen ::
        .newline :: .keyword .returnKw :: (a ++ [.newline, .newline, .keyword .endKw]))) := by
  have hbody : Prints (.block (.list default [.ret default (some e)])) _ :=
    .block 0 1 (.statements (.valueReturn h) .noMoreStatements)
  have hfunction : Prints (.statement .whole (.function default (some name) params
    (.list default [.ret default (some e)]) false)) _ :=
    .statement (.bare (Nat.zero_le _) (.function hbody))
  simpa [nameLexemes] using hfunction

theorem prints_operation (name : String) (op : BinaryOp) :
    Prints (.statement .whole (operation name op))
      ([Lexeme.newline].intercalate ((operationLexemes name op.lexeme).take 3)) :=
  prints_returning name ["a", "b"]
    (prints_binary op (by cases op <;> decide) (prints_name "a") (prints_name "b"))

theorem prints_drawCall (hp : p ≤ .call) : Prints (.operand p drawCall) drawLexemes :=
  .bare hp (.call (prints_name "random") .noItems)

theorem prints_keepCall {e : Node} (h : Prints (.operand .logic e) a) :
    Prints (.statement .whole (keepCall e))
      (.name "append" :: .openParen :: .name "res" :: .comma :: (a ++ [.closeParen])) := by
  have hcall : Prints (.operand .whole (keepCall e)) _ := .bare (Nat.zero_le _) (.call
    (prints_name "append") (.items (prints_name "res") (.moreItems h .noMoreItems)))
  simpa using Prints.statement hcall

theorem prints_scaledRound :
    Prints (.block scaledRound) (.newline :: wordsOf ((listLexemes.drop 4).take 2)) := by
  have hproduct : Prints (.operand .logic (.binary default .mul drawCall
      (.number default (.int 1000000)))) (drawLexemes ++ [.times, .int 1000000]) :=
    prints_binary .mul (by decide) (prints_drawCall (by decide)) (prints_int 1000000)
  exact .block 0 0 (.statements (prints_assign hproduct)
    (.moreStatements 0 (prints_keepCall (prints_name "gen")) .noMoreStatements))

theorem prints_plainRound :
    Prints (.block plainRound) (.newline :: wordsOf ((listLexemes.drop 9).take 1)) :=
  .block 0 0 (.statements (prints_keepCall (prints_drawCall (by decide))) .noMoreStatements)

theorem prints_drawLoop {round : Node} (h : Prints (.block round) a) :
    Prints (.block (.list default [drawLoop round]))
      (.newline :: (loopLexemes ++ (a ++ [.keyword .endKw, .newline]))) := by
  have hvar : OptionalVar [.keyword .varKw] := .present rfl
  have hloop : Prints (.statement .whole (drawLoop round)) _ := .statement (.bare (Nat.zero_le _)
    (.forLoop hvar (by simp) (prints_int 0) (prints_name "size") .noStep (.blockBody h)))
  have hblock : Prints (.block (.list default [drawLoop round])) _ :=
    .block 0 0 (.statements hloop .noMoreStatements)
  simpa [loopLexemes] using hblock

theorem prints_kindTest (kind : String) :
    Prints (.operand .logic (kindTest kind)) [.name "type", .equal, .name kind] :=
  prints_binary .eq (by decide) (prints_name "type") (prints_name kind)

theorem prints_plainBranch : Prints (.operand .whole plainBranch)
    ([.keyword .ifKw, .name "type", .equal, .name "float", .keyword .thenKw, .newline] ++
      wordsOf ((listLexemes.drop 8).take 5) ++ [.keyword .endKw]) := by
  have hrefusal : Prints (.block refusal) _ := .block 0 0 (.statements (.statement
    (.bare (by decide) (.call (prints_name "error") (.items (prints_text _) .noMoreItems))))
    .noMoreStatements)
  have hbranch : Prints (.operand .whole plainBranch) _ := .bare (by decide) (.branch (.blockCase
    (prints_kindTest "float") (prints_drawLoop prints_plainRound) (by simp) (.blockElse hrefusal)))
  exact hbranch

theorem readBack_kindBranch : ReadBack (.statement .whole kindBranch)
    (wordsOf ((listLexemes.drop 2).take 11) ++ [.keyword .endKw]) := by
  have hplain : StatementRead .whole plainBranch _ :=
    statement_reads (readBack_of_prints prints_plainBranch)
  have hcases : CasesRead .ifKw ([(kindTest "int", .list default [drawLoop scaledRound], true)],
      some (plainBranch, false)) _ :=
    blockCase_reads (readBack_of_prints (prints_kindTest "int"))
      (readBack_of_prints (prints_drawLoop prints_scaledRound)) (by simp) (inlineElse_reads hplain)
  have hbranch : StatementRead .whole kindBranch _ := statement_reads (branch_reads hcases)
  exact hbranch

theorem readBack_randList : ReadBack (.statement .whole
    (.function default (some "rand_list") ["size", "type"] randListBody false))
    ([Lexeme.newline].intercalate listLexemes) := by
  have hres : Prints (.statement .whole (.assign default "res" (.list default []))) _ :=
    prints_assign (.bare (by decide) (.list .noItems))
  have hret : Prints (.statement .whole (.ret default (some (.access default "res")))) _ :=
    .valueReturn (prints_name "res")
  have hbody : BlockRead randListBody _ := block_reads 0 0 (statements_reads
    (readBack_of_prints hres) (moreStatements_reads 0 readBack_kindBranch
      (moreStatements_reads 1 (readBack_of_prints hret) noMoreStatements_reads)))
  have hfunction : StatementRead .whole
      (.function default (some "rand_list") ["size", "type"] randListBody false) _ :=
    statement_reads (function_reads hbody)
  exact hfunction

theorem readBack_mathStatements : ReadBack (.program mathStatements)
    ([Lexeme.newline].intercalate (numberLexemes ++ [] :: listLexemes)) := by
  have hpi : Prints (.statement .whole (.assign default "PI"
      (.number default (.float 3.141592653589793)))) _ := prints_assign (prints_float _)
  have hdeg := prints_returning "degToRad" ["deg"] (prints_binary .div (by decide)
    (prints_binary .mul (by decide) (prints_name "deg") (prints_name "PI")) (prints_float 180.0))
  have hrad := prints_returning "radToDeg" ["rad"] (prints_binary .div (by decide)
    (prints_binary .mul (by decide) (prints_name "rad") (prints_float 180.0)) (prints_name "PI"))
  have hprogram : ReadBack (.program mathStatements) _ :=
    program_reads 0 0 (statements_reads (readBack_of_prints hpi)
    (moreStatements_reads 1 (readBack_of_prints hdeg)
    (moreStatements_reads 1 (readBack_of_prints hrad)
    (moreStatements_reads 1 (readBack_of_prints (prints_operation "add" .add))
    (moreStatements_reads 1 (readBack_of_prints (prints_operation "sub" .sub))
    (moreStatements_reads 1 (readBack_of_prints (prints_operation "mul" .mul))
    (moreStatements_reads 1 (readBack_of_prints (prints_operation "div" .div))
    (moreStatements_reads 2 readBack_randList noMoreStatements_reads))))))))
  exact Eq.subst (motive := ReadBack (.program mathStatements)) (by decide +kernel) hprogram

end

/-- However the library's text is named, it is read as these statements. -/
theorem exists_mathTree (name : String) : ∃ tokens tree,
    (⟨name, "\n".intercalate mathLines⟩ : Source).tokens = .ok tokens ∧
      Node.ofTokens tokens = .ok tree ∧ tree.shape = .list default mathStatements := by
  obtain ⟨tokens, htokens, hlexemes⟩ := Source.tokens_lines name hasWords_mathLines
  obtain ⟨tree, htree, hshape⟩ := ofTokens_of_readBack readBack_mathStatements hlexemes
  exact ⟨tokens, tree, htokens, htree, hshape⟩

end Think.Library
