import Think.Proofs.Program.Importing
import Think.Proofs.Token.Quotation

/-! # Reversing a text

The library's function for reversing a text takes its characters out by `>`, which texts do not
have. So it fails in its first round, and for an empty text, where there is no round, it gives null.
-/

namespace Think

open BuiltinCall (nullValue)

structure Library.Known (known : String → Option Payload) : Prop where
  function : known "reverse_string" = some (.function "reverse_string" ["inp"] reverseBody false)
  len : known "len" = some (.builtin "len")
  isMain : known "is_main" = none

namespace Eval

open Store

variable {α β : Type} {m : Machine} {c : Context} {known : String → Option Payload} {k d : Nat}

def LacksOperator (c : Context) (x : Eval α) (m : Machine) : Prop :=
  ∃ report m', x m = (.error (.error report), m') ∧ report.kind = .runtime ∧
    report.details = "Illegal operation -> unknown" ∧ report.context = some c

theorem LacksOperator.bind {x : Eval α} (h : LacksOperator c x m) (f : α → Eval β) :
    LacksOperator c (x >>= f) m := by
  obtain ⟨report, m', hx, hreport⟩ := h
  exact ⟨report, m', bind_error hx, hreport⟩

theorem LacksOperator.after {x : Eval α} {f : α → Eval β} {a : α} {m₁ : Machine}
    (hx : x m = (.ok a, m₁)) (h : LacksOperator c (f a) m₁) : LacksOperator c (x >>= f) m := by
  obtain ⟨report, m', hf, hreport⟩ := h
  exact ⟨report, m', (bind_ok hx).trans hf, hreport⟩

theorem lacksOperator_greater {n : Node} {x y t : String} {i : Number}
    (hn : n.shape = .binary default .gt (.access default x) (.access default y))
    (hm : m.store.Offers c.symbols known) (hx : known x = some (.text t))
    (hy : known y = some (.number i)) : LacksOperator c (eval (k + 2) (d + 1) c n) m := by
  obtain ⟨span, left, right, rfl, hleft, hright⟩ := Node.eq_binary hn
  obtain ⟨place, rfl⟩ := Node.eq_access hleft
  obtain ⟨o, haccess, hshape, hcontext⟩ := access_known hm hx (by simp) place
  let l : ObjectRef := ⟨m.store.objects.size⟩
  let m₁ : Machine := ⟨(m.store.allocate o).2, m.world⟩
  have hl : eval (k + 1) (d + 1) c (.access place x) m = (.ok (.object l), m₁) := by
    rw [eval, haccess]
  have hname : Worth known (k + 1) (.access default y) (.number i) := .name hy (by simp)
  have hm₁ : m₁.store.Offers c.symbols known := hm.extend (.allocate m.store o)
  obtain ⟨r, m₂, hr, hnew⟩ := hname.eval hright hm₁ d
  have ho : m₂.store.object l = o := by
    rw [hnew.object l (by simp [m₁, l, Store.allocate]), object_push]
  have hnumber : (m₂.store.object r).payload = .number i :=
    Payload.shape_eq_number.mp hnew.carries
  have hother : Operator.payload? (.object r) m₂ = (.ok (some (.number i)), m₂) := by
    rw [← hnumber]
    rfl
  have hunknown := Operator.illegal_object (α := Answer) l "unknown"
    (show m₂.store.isSomething (.object r) = true by rw [isSomething, hnumber])
  have hgreater : Operator.binary .gt l (.object r) m₂ =
      Operator.illegal l (.object r) "unknown" m₂ := by
    rw [Operator.binary, bind_ok (object_apply l m₂), ho, Payload.shape_eq_text.mp hshape]
    exact (bind_ok hother).trans rfl
  rw [eval]
  refine .after hl (.after hr ?_)
  have hleft : objectOf (.object l) m₂ = (.ok (l, o), m₂) := by
    rw [← ho]
    rfl
  have hdetails : "Illegal operation -> " ++ "unknown" = "Illegal operation -> unknown" := by decide
  refine .after hleft (.bind ⟨_, _, hgreater.trans hunknown, rfl, hdetails, ?_⟩ _)
  exact (congrArg Object.context ho).trans hcontext

open Library (reverseRound reverseLoop reverseBody)

structure Reverses (known : String → Option Payload) (s : String) : Prop where
  inp : known "inp" = some (.text s)
  len : known "len" = some (.builtin "len")
  res : ∃ t, known "res" = some (.text t)

/-- A round of the loop stops where the character is taken out. -/
theorem lacksOperator_round {n : Node} {s : String} {i : Number} (hn : n.shape = reverseRound)
    (hm : m.store.Offers c.symbols known) (hknown : Reverses known s)
    (hi : known "i" = some (.number i)) : LacksOperator c (eval (k + 6) (d + 1) c n) m := by
  obtain ⟨t, hres⟩ := hknown.res
  obtain ⟨_, _, rfl, hns⟩ := Node.eq_list hn
  obtain ⟨_, rfl, hassign⟩ := Node.shapes_eq_single hns
  obtain ⟨_, _, rfl, hsum⟩ := Node.eq_assign hassign
  obtain ⟨_, _, _, rfl, hleft, hright⟩ := Node.eq_binary hsum
  have hname : Worth known (k + 2) (.access default "res") (.text t) := .name hres (by simp)
  obtain ⟨r, m₁, hr, hnew⟩ := hname.eval hleft hm d
  rw [eval, evalAll, eval, eval]
  refine .bind (.bind (.bind (.after hr (.bind ?_ _)) _) _) _
  exact lacksOperator_greater hright (hm.extend hnew.toExtends) hknown.inp hi

/-- There is no round for an empty text, and the first round fails for any other. -/
theorem repeatFor_reversing {body : Node} {s : String} {last : ObjectRef}
    (hbody : body.shape = reverseRound) (hm : m.store.Offers c.symbols known)
    (hknown : Reverses known s) (hlast : (m.store.object last).payload = .number (.int (-1))) :
    let rounds := repeatFor (k + 7) (d + 1) c "i" (.int (s.length - 1)) (.int (-1))
      (decide ((0 : Int) ≤ -1)) (.object last) body []
    (s = "" → rounds m = (.ok [], m)) ∧ (s ≠ "" → LacksOperator c rounds m) := by
  intro rounds
  have hround := startRound_int c "i" (s.length - 1) (-1) hlast
  constructor
  · rintro rfl
    unfold rounds
    rw [repeatFor]
    exact (bind_ok hround).trans rfl
  · intro hs
    have hpos : 0 < s.length := by
      rw [Nat.pos_iff_ne_zero]
      simpa using hs
    rw [if_pos (by simp; omega)] at hround
    let i : Payload := .number (.int (s.length - 1))
    let m₁ := m.counting c.symbols "i" (s.length - 1)
    have hnew : NewObject m.store (m.store.allocate (.fresh i)).2 ⟨m.store.objects.size⟩ i :=
      .allocate m.store rfl
    have hm₁ : m₁.store.Offers c.symbols (Function.update known "i" (some i)) :=
      (hm.extend hnew.toExtends).bind "i" hnew.isThere hnew.carries
    have hknown₁ : Reverses (Function.update known "i" (some i)) s :=
      ⟨hknown.inp, hknown.len, hknown.res⟩
    obtain ⟨report, m', hstop, hreport⟩ :=
      lacksOperator_round (k := k) (d := d) hbody hm₁ hknown₁ (Function.update_self ..)
    exact ⟨report, m', repeatFor_body hround hstop id, hreport⟩

theorem eval_reverseLoop {n : Node} {s : String} (hn : n.shape = reverseLoop)
    (hm : m.store.Offers c.symbols known) (hknown : Reverses known s) :
    (s = "" → ∃ m', eval (k + 8) (d + 1) c n m = (.ok nullValue, m') ∧
      m.store.Extends m'.store) ∧
    (s ≠ "" → LacksOperator c (eval (k + 8) (d + 1) c n) m) := by
  obtain ⟨span, x, y, z, body, rfl, hx, hy, hz, hbody⟩ := Node.eq_forLoop hn
  have hone : Worth known (k + 7) (.unary default .minus (.number default (.int 1)))
      (.number (.int (-1))) := .minus .int
  have hlength : Worth known (k + 7) (.binary default .sub (.call default (.access default "len")
      [.access default "inp"]) (.number default (.int 1))) (.number (.int (s.length - 1))) :=
    .sub (.length hknown.len (.name hknown.inp (by simp))) .int
  obtain ⟨first, m₁, hfirst, hnew₁⟩ := hlength.eval hx hm d
  have hm₁ := hm.extend hnew₁.toExtends
  obtain ⟨last, m₂, hlast, hnew₂⟩ := hone.eval hy hm₁ d
  have hm₂ := hm₁.extend hnew₂.toExtends
  obtain ⟨step, m₃, hstep, hnew₃⟩ := hone.eval hz hm₂ d
  have hm₃ := hm₂.extend hnew₃.toExtends
  have hstart : loopStart (.object first) (.object step) m₃ =
      (.ok (.int (s.length - 1), .int (-1), decide ((0 : Int) ≤ -1)), m₃) :=
    loopStart_int (Payload.shape_eq_number.mp (hnew₁.keep (hnew₂.toExtends.trans hnew₃.toExtends)))
      (Payload.shape_eq_number.mp hnew₃.carries)
  obtain ⟨hnone, hfails⟩ := repeatFor_reversing (k := k) (d := d) hbody hm₃ hknown
    (Payload.shape_eq_number.mp (hnew₂.keep hnew₃.toExtends))
  rw [eval_forLoop]
  constructor
  · intro hs
    refine ⟨m₃, ?_, hnew₁.toExtends.trans (hnew₂.toExtends.trans hnew₃.toExtends)⟩
    rw [bind_ok hfirst, bind_ok hlast]
    exact (bind_ok hstep).trans ((bind_ok hstart).trans ((bind_ok (hnone hs)).trans rfl))
  · intro hs
    exact .after hfirst (.after hlast (.after hstep (.after hstart (.bind (hfails hs) _))))

theorem eval_ret_empty {n : Node} {x : String}
    (hn : n.shape = .ret default (some (.access default x)))
    (hm : m.store.Offers c.symbols known) (hx : known x = some (.text "")) :
    ∃ m', eval (k + 2) (d + 1) c n m = (.ok .absent, m') ∧ m.store.Extends m'.store := by
  obtain ⟨r, m', hnew, hret⟩ := eval_ret_known (k := k) (d := d) hn hm hx (by simp)
  have hnothing : m'.store.isSomething (.object r) = false := by
    rw [isSomething, Payload.shape_eq_text.mp hnew.carries]
    rfl
  rw [hnothing] at hret
  exact ⟨m', hret, hnew.toExtends⟩

theorem eval_reverseBody {n : Node} {s : String} (hn : n.shape = reverseBody)
    (hm : m.store.Offers c.symbols known) (hinp : known "inp" = some (.text s))
    (hlen : known "len" = some (.builtin "len")) :
    (s = "" → ∃ v m', eval (k + 11) (d + 1) c n m = (.ok v, m') ∧
      (m'.store.object ⟨0⟩).payload = .null) ∧
    (s ≠ "" → LacksOperator c (eval (k + 11) (d + 1) c n) m) := by
  obtain ⟨span, _, rfl, hns⟩ := Node.eq_list hn
  obtain ⟨assign, _, rfl, hassign, hns⟩ := Node.shapes_eq_cons hns
  obtain ⟨loop, _, rfl, hloop, hns⟩ := Node.shapes_eq_cons hns
  obtain ⟨ret, rfl, hret⟩ := Node.shapes_eq_single hns
  have hdoes : Does (k + 9) known (.assign default "res" (.text default "")) (.text "")
      (Function.update known "res" (some (.text ""))) := .assign .text
  obtain ⟨r, m₁, hr, -, -, hm₁, -⟩ := hdoes.eval hassign hm d
  have hknown : Reverses (Function.update known "res" (some (.text ""))) s :=
    ⟨hinp, hlen, "", Function.update_self ..⟩
  obtain ⟨hempty, hfails⟩ := eval_reverseLoop (k := k) (d := d) hloop hm₁ hknown
  constructor
  · intro hs
    obtain ⟨m₂, hnull, hext₂⟩ := hempty hs
    have hm₂ := hm₁.extend hext₂
    obtain ⟨m₃, habsent, hext₃⟩ :=
      eval_ret_empty (k := k + 5) (d := d) hret hm₂ (Function.update_self ..)
    have hall : evalAll (k + 10) (d + 1) c [assign, loop, ret] m =
        (.ok [.object r, nullValue, .absent], m₃) := by
      rw [evalAll, bind_ok hr, evalAll]
      have hlast := evalAll_single habsent
      exact (bind_ok ((bind_ok hnull).trans ((bind_ok hlast).trans rfl))).trans rfl
    obtain ⟨q, m₄, hq, hext₄, -⟩ := eval_list hall span
    exact ⟨_, m₄, hq, (hm₂.extend (hext₃.trans hext₄)).null⟩
  · intro hs
    rw [eval, evalAll, evalAll]
    exact .bind (.after hr (.bind (.bind (hfails hs) _) _)) _

/-- What a call of `reverse_string` does that stands in a program. -/
theorem eval_reverseString {n : Node} {s : String}
    (hn : n.shape = .call default (.access default "reverse_string") [.text default s])
    (hm : m.store.Offers c.symbols known) (hknown : Library.Known known) :
    (s = "" → ∃ q m', eval (k + 13) (d + 2) c n m = (.ok (.object q), m') ∧
      (m'.store.object q).payload.shape = .null) ∧
    (s ≠ "" → ∃ inner, inner.name = "reverse_string" ∧
      LacksOperator inner (eval (k + 13) (d + 2) c n) m) := by
  obtain ⟨span, _, _, rfl, hcallee, hargs⟩ := Node.eq_call hn
  obtain ⟨place, rfl⟩ := Node.eq_access hcallee
  obtain ⟨arg, rfl, harg⟩ := Node.shapes_eq_single hargs
  obtain ⟨f, m₂, hnewf, hcontext, heval⟩ :=
    eval_call_known hm hknown.function (by simp) (k + 11) (d + 2) place span [arg]
  have hm₂ := hm.extend hnewf.toExtends
  have htext : Worth known (k + 11) (.text default s) (.text s) := .text
  obtain ⟨r, m₃, hr, hnewr⟩ := htext.eval harg hm₂ (d + 1)
  obtain ⟨inner, body, m₄, hname, hbody, hm₄, hgives, hstops⟩ :=
    call_single (k := k + 11) (d := d + 1) (hnewf.keep hnewr.toExtends)
      (by rw [hnewr.object f hnewf.isThere, hcontext]) (hm₂.extend hnewr.toExtends)
      hnewr.isThere hnewr.carries
  obtain ⟨hempty, hfails⟩ := eval_reverseBody (k := k) (d := d) hbody hm₄
    (Function.update_self ..) hknown.len
  constructor
  · intro hs
    obtain ⟨u, m₅, hu, hnull⟩ := hempty hs
    have hshape : (m₅.store.object ⟨0⟩).payload.shape = .null := by
      rw [hnull]
      rfl
    obtain ⟨q, m₆, hq, hnewq⟩ := resultAt_new hshape (by simp) span c
    refine ⟨q, m₆, ?_, hnewq.carries⟩
    rw [heval, bind_ok (evalAll_single hr), bind_ok (hgives u m₅ hu)]
    exact hq
  · intro hs
    obtain ⟨report, m₅, hreport, hlacks⟩ := hfails hs
    refine ⟨inner, hname, report, m₅, ?_, hlacks⟩
    rw [heval, bind_ok (evalAll_single hr)]
    exact bind_error (hstops report m₅ hreport)

end Eval

namespace Source

open Scanner Library

def reversing (name : String) (raw : List Char) : Source :=
  ⟨name, "reverse_string(\"" ++ String.ofList raw ++ "\")"⟩

theorem exists_tree_reversing {s : String} {raw : List Char} (h : Encodes s.toList raw)
    (name : String) : ∃ tokens tree, (reversing name raw).tokens = .ok tokens ∧
      Node.ofTokens tokens = .ok tree ∧ tree.shape = .list default
        [.call default (.access default "reverse_string") [.text default s]] := by
  let lexemes : List Lexeme := [.name "reverse_string", .openParen, .text s, .closeParen]
  have hname : Scans "reverse_string".toList [.name "reverse_string"] fun rest =>
      ∃ t, rest = '(' :: t ∧ Scans.Opens t :=
    Scans.calledName rfl (by decide) (by decide) (by decide)
  have hquoted : Scans ('"' :: (raw ++ ['"'])) [.text s] fun _ => True := by
    have hscans := h.scans
    rwa [String.ofList_toList] at hscans
  have hclosed := hquoted.append (Scans.punctuation (c := ')') rfl) fun _ _ => trivial
  have hopened := (Scans.punctuation (c := '(') rfl).append hclosed fun _ _ => trivial
  have hopens (t : List Char) : Scans.Opens ('"' :: t) :=
    ⟨'"', t, rfl, by decide, by decide, by decide, fun hplus => absurd hplus (by decide)⟩
  have hwhole := hname.append hopened fun rest _ => ⟨_, rfl, hopens _⟩
  have htext : (reversing name raw).text.toList =
      "reverse_string".toList ++ (['('] ++ ('"' :: (raw ++ ['"']) ++ [')'])) := by simp [reversing]
  obtain ⟨tokens, htokens, hlexemes⟩ := hwhole.tokens trivial htext
  have hcall : Prints (.operand .whole (.call default (.access default "reverse_string")
      [.text default s])) lexemes :=
    .bare (Nat.zero_le _) (.call (prints_name _) (.items (prints_text s) .noMoreItems))
  have hprogram : Prints (.program [.call default (.access default "reverse_string")
      [.text default s]]) lexemes :=
    .program 0 0 (.statements (.statement hcall) .noMoreStatements)
  obtain ⟨tree, htree, hshape⟩ := hprogram.ofTokens hlexemes
  exact ⟨tokens, tree, htokens, htree, hshape⟩

end Source

/-- The library's text is in its place, and no file of the session's own stands in for it. -/
structure World.HasStringLibrary (w : World) : Prop where
  noneNearer : w.files.isFile w.cwd "string.think" = false
  isRelative : w.files.isAbsolute "string.think" = false
  text : w.files.read w.cwd (w.libraryPath ++ "/" ++ "string.think") =
    .ok ("\n".intercalate Library.stringLines)

theorem World.HasStringLibrary.hasModule {w : World} (h : w.HasStringLibrary) :
    w.HasModule "string.think" ("\n".intercalate Library.stringLines) :=
  ⟨h.noneNearer, h.isRelative, h.text⟩

/-- What the statements of the library give, and what is known after them. -/
theorem Library.doesAll_stringStatements :
    ∃ ps xs t known, (∀ k, DoesAll (k + 9) Builtin.known stringStatements ps known) ∧
      ps.map Payload.leaf? = xs.map some ∧ (Snapshot.list xs).written = .ok t ∧ t ≠ "null" ∧
      Known known := by
  refine ⟨_, [.text _, .text _, .text _, .text _, .text _, .function _ _ _], _, _, fun _ =>
    .cons (.assign .text) (.cons (.assign .text)
    (.cons (.assign (.concat (.name (by rfl) (by simp)) (.name (by rfl) (by simp))))
    (.cons (.assign .text)
    (.cons (.assign (.concat (.concat (.name (by rfl) (by simp)) .text) .text))
    (.cons .function .nil))))), rfl, rfl, ?_, rfl, rfl, rfl⟩
  decide +kernel

theorem Library.loads_string : ∃ known, Loads ("\n".intercalate stringLines) Builtin.known known ∧
    Known known := by
  obtain ⟨ps, xs, t, known, hdoes, hps, hwritten, ht, hknown⟩ := doesAll_stringStatements
  exact ⟨known, .of_statements unified_stringLines exists_stringTree (fun k => hdoes (k + 3)) hps
    hwritten ht, hknown⟩

namespace Machine

open Eval

/-- The library can be imported in a fresh session that has it. -/
theorem run_importString {w : World} (hw : w.HasStringLibrary) (name : String) :
    ∃ v m known, (start w).run ⟨name, "import \"string\""⟩ = (.value v, m) ∧
      m.store.Offers globals known ∧ Library.Known known := by
  obtain ⟨known, hloads, hknown⟩ := Library.loads_string
  have hline : Source.HasWords "import \"string\"" [.keyword .importKw, .text "string"] :=
    Source.hasWords_of_lexemes (by decide +kernel) (by decide) (by decide)
  obtain ⟨v, m, hrun, hm, -⟩ :=
    run_import hw.hasModule hloads (offers_start w) rfl hline (by decide) name
  exact ⟨v, m, known, hrun, hm, hknown⟩

theorem run_reversing {m : Machine} {known : String → Option Payload}
    (hm : m.store.Offers globals known) (hknown : Library.Known known) {s : String}
    {raw : List Char} (hraw : Encodes s.toList raw) (name : String) :
    (s = "" → ∃ m', m.run (.reversing name raw) = (.value (.bare ""), m')) ∧
    (s ≠ "" → ∃ report m' context, m.run (.reversing name raw) = (.error report, m') ∧
      report.kind = .runtime ∧ report.details = "Illegal operation -> unknown" ∧
      report.context = some context ∧ context.name = "reverse_string") := by
  obtain ⟨tokens, tree, htokens, htree, hshape⟩ := Source.exists_tree_reversing hraw name
  obtain ⟨span, _, rfl, hns⟩ := Node.eq_list hshape
  obtain ⟨n, rfl, hn⟩ := Node.shapes_eq_single hns
  obtain ⟨k, hk⟩ := exists_fuel (n := 15) (by decide) (Source.reversing name raw).text
  obtain ⟨hempty, hfails⟩ := eval_reverseString (c := programContext name) (k := k) (d := 247) hn
    (offers_mainMachine hm hknown.isMain) hknown
  constructor
  · intro hs
    obtain ⟨q, m₁, hq, hnull⟩ := hempty hs
    have hall : evalAll (k + 14) 249 (programContext name) [n] (mainMachine m) =
        (.ok ([q].map .object), m₁) := evalAll_single hq
    have hrange : ∀ r ∈ [q], r.index < m₁.store.objects.size := by
      rintro r hr
      obtain rfl := List.mem_singleton.mp hr
      exact Store.index_lt (Payload.ne_plain hnull (by simp))
    have hleaves : ([q].map fun r => (m₁.store.object r).payload.shape).map Payload.leaf? =
        [Snapshot.null].map some := by
      rw [List.map_singleton, hnull]
      rfl
    obtain ⟨r, m₂, hr, -, -, hshows⟩ := eval_leaves hall hrange hleaves span
    have hsettle := settle_eq hr (t := "null") (by rw [hshows.snapshot]; rfl)
    rw [← hk] at hsettle
    exact ⟨m₂, run_eq (treeOf_ok htokens htree) hsettle⟩
  · intro hs
    obtain ⟨inner, hname, hlacks⟩ := hfails hs
    have hwhole : LacksOperator inner (eval (k + 15) 249 (programContext name) (.list span [n]))
        (mainMachine m) := by
      rw [eval, evalAll]
      exact .bind (.bind hlacks _) _
    obtain ⟨report, m₁, hreport, hkind, hdetails, hcontext⟩ := hwhole
    rw [← hk] at hreport
    exact ⟨report, m₁, inner, run_eq (treeOf_ok htokens htree) (settle_error hreport), hkind,
      hdetails, hcontext, hname⟩

/-- In a fresh session that has the library, `reverse_string` can be imported. Calling it gives
nothing for an empty text, and otherwise the error of an operator that texts do not have. -/
theorem run_reverse_string {w : World} (hw : w.HasStringLibrary) {s : String}
    {pieces : List (List Char)} (hpieces : List.Forall₂ Writes s.toList pieces)
    (first second : String) :
    ∃ v m, (start w).run ⟨first, "import \"string\""⟩ = (.value v, m) ∧
      (s = "" → ∃ m', m.run (.reversing second pieces.flatten) = (.value (.bare ""), m')) ∧
      (s ≠ "" → ∃ report m' context,
        m.run (.reversing second pieces.flatten) = (.error report, m') ∧
        report.kind = .runtime ∧ report.details = "Illegal operation -> unknown" ∧
        report.context = some context ∧ context.name = "reverse_string") := by
  obtain ⟨v, m, known, hrun, hm, hknown⟩ := run_importString hw first
  have hraw : Encodes s.toList pieces.flatten := encodes_iff.mpr ⟨pieces, hpieces, rfl⟩
  exact ⟨v, m, hrun, run_reversing hm hknown hraw second⟩

def libraryWorld : World := .start (Library.install ⟨"/home", []⟩)

theorem run_reverse_string_abc : libraryWorld.HasStringLibrary ∧
    List.Forall₂ Writes "abc".toList [['a'], ['b'], ['c']] ∧
    ∃ v m report m', (start libraryWorld).run ⟨"<stdin>", "import \"string\""⟩ = (.value v, m) ∧
      m.run ⟨"<stdin>", "reverse_string(\"abc\")"⟩ = (.error report, m') ∧
      report.details = "Illegal operation -> unknown" := by
  have hw : libraryWorld.HasStringLibrary :=
    ⟨by decide +kernel, by decide +kernel, by decide +kernel⟩
  have hitself {c : Char} (hquote : c ≠ '"') (hslash : c ≠ '\\') : Writes c [c] :=
    .itself hquote hslash
  have hpieces : List.Forall₂ Writes "abc".toList [['a'], ['b'], ['c']] :=
    .cons (hitself (by decide) (by decide)) (.cons (hitself (by decide) (by decide))
      (.cons (hitself (by decide) (by decide)) .nil))
  obtain ⟨v, m, hrun, -, hfails⟩ := run_reverse_string hw hpieces "<stdin>" "<stdin>"
  obtain ⟨report, m', -, hcall, -, hdetails, -⟩ := hfails (by decide)
  exact ⟨hw, hpieces, v, m, report, m', hrun, hcall, hdetails⟩

end Machine

end Think
