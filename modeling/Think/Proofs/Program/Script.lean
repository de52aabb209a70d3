import Think.Proofs.Eval.IsMain
import Think.Proofs.Eval.Writing
import Think.Proofs.Program.Lines
import Think.Shell

/-! # Scripts

A script is run line by line, each line as a program of its own. Where every line can be read by
itself and leaves nothing open, this does what running the whole text as one program does.
-/

namespace Think

open Relation (ReflTransGen)

namespace Eval

variable {x : Eval Value} {m m' : Machine} {u v : Value} {f : Fault}

theorem programValue_error (h : (m.store.snapshot u).written = .error f) :
    programValue u m = (.error (.fault f), m) := by
  have hwritten : written u m = (.error (.fault f), m) := by
    change lift (m.store.snapshot u).written m = _
    rw [h]
    rfl
  exact bind_error hwritten

theorem settle_unwritten (hx : x m = (.ok u, m')) (h : (m'.store.snapshot u).written = .error f) :
    settle x m = (.error (.fault f), m') := by
  have hout : outcome (x >>= programValue) m = (.ok (.error (.fault f)), m') := by
    rw [outcome_apply, bind_ok hx, programValue_error h]
  rw [show settle x m = _ from bind_ok hout]
  rcases Snapshot.fault_written _ h with rfl | rfl
  · rfl
  · rfl

theorem hasTree_of_treeOf {source : Source} {tree : Node}
    (h : treeOf source m = (.ok (.ok tree), m')) : source.HasTree tree := by
  obtain ⟨-, ⟨d, -, hx⟩ | ⟨tokens, htokens, ⟨d, -, hx⟩ | ⟨n, htree, hx⟩⟩⟩ := treeOf_cases h
  · cases hx
  · cases hx
  · cases hx
    exact ⟨tokens, htokens, htree⟩

theorem runText_eq_ok {source : Source} {n depth : Nat}
    (h : runText n (depth + 1) source m = (.ok (.ok v), m')) :
    ∃ k tree, n = k + 1 ∧ source.HasTree tree ∧
      settle (eval k depth (programContext source.name) tree) (mainMachine m) =
        (.ok (.ok v), m') := by
  cases n with
  | zero =>
    rw [runText] at h
    cases h
  | succ k =>
    have h' := h
    rw [runText] at h'
    obtain ⟨r, m₁, hr, h'⟩ := bind_eq_ok h'
    cases r with
    | error d => cases h'
    | ok tree =>
      obtain ⟨tokens, ht, hn⟩ := hasTree_of_treeOf hr
      rw [runText_succ (treeOf_ok ht hn)] at h
      exact ⟨k, tree, rfl, ⟨tokens, ht, hn⟩, h⟩

/-- The first of some statements are evaluated by themselves, and then evaluation gets to the
others. -/
theorem evalAll_append {k depth : Nat} {c : Context} {xs ys : List Node} {vs : List Value}
    (h : evalAll k depth c (xs ++ ys) m = (.ok vs, m')) :
    ∃ k' m₁ vs₁ vs₂, k' ≤ k ∧ evalAll k depth c xs m = (.ok vs₁, m₁) ∧
      evalAll k' depth c ys m₁ = (.ok vs₂, m') ∧
      Reaches depth c ⟨.all (xs ++ ys), k, m⟩ ⟨.all ys, k', m₁⟩ := by
  induction xs generalizing k m vs with
  | nil =>
    cases k with
    | zero =>
      rw [evalAll] at h
      cases h
    | succ k => exact ⟨k + 1, m, [], vs, Nat.le_refl _, by rw [evalAll]; rfl, h, .refl⟩
  | cons x xs ih =>
    cases k with
    | zero =>
      rw [evalAll] at h
      cases h
    | succ k =>
      rw [List.cons_append, evalAll] at h
      obtain ⟨v, m₁, hv, h⟩ := bind_eq_ok h
      obtain ⟨ws, m₂, hws, h⟩ := bind_eq_ok h
      cases h
      obtain ⟨k', m₃, vs₁, vs₂, hk, hxs, hys, hreaches⟩ := ih hws
      refine ⟨k', m₃, v :: vs₁, vs₂, Nat.le_succ_of_le hk, ?_, hys, .head (.next hv) hreaches⟩
      rw [evalAll, bind_ok hv, bind_ok hxs]
      rfl

/-- What is not looked at by some statements is not looked at by the first of them. -/
theorem Event.AllClear.of_append {A : TableRef → String → Prop} {k depth : Nat} {c : Context}
    {xs ys : List Node} (h : (inside k depth c m (.all (xs ++ ys))).AllClear A) :
    (inside k depth c m (.all xs)).AllClear A := by
  induction xs generalizing k m with
  | nil =>
    intro f hf
    rcases ReflTransGen.cases_head hf with rfl | ⟨g, hl, -⟩
    · trivial
    · cases hl with
      | part hl =>
        cases hl with
        | enters he => cases he
  | cons x xs ih =>
    intro f hf
    rcases ReflTransGen.cases_head hf with rfl | ⟨g, hl, hg⟩
    · trivial
    · cases hl with
      | part hl =>
        cases hl with
        | enters he =>
          cases he with
          | first => exact h.enters .first f hg
          | next hv => exact ih (h.enters (.next hv)) f hg

end Eval

namespace Machine

variable {ρ : Pairing} {m r u u' : Machine} {source : Source} {f : Fault}

/-- The main program may be told again that it is the main one: it is told already, or nobody looks
at that any more. -/
theorem Alike.mainMachine (h : Machine.Alike ρ u r) (hu : u.store.KnowsMain)
    (hapart : ∀ t x, ρ.apart t x → u.store.MainHidden t x) :
    ∃ ρ' : Pairing, (∀ t x, ρ'.apart t x → u.store.MainHidden t x) ∧
      Machine.Alike ρ' u (Eval.mainMachine r) := by
  rcases hu with hhides | ⟨q, hq, hlt, hpayload⟩
  · have halike := (h.store.allocate_right (.fresh (.number (.int 1)))).leaveOut hapart
    refine ⟨_, fun _ _ => id, halike.bindEntry_right _ _ fun hnot => ?_, h.world⟩
    exact absurd ⟨rfl, rfl, hhides⟩ hnot
  · refine ⟨ρ, hapart, (h.store.allocate_right _).bindEntry_right _ _ fun _ => ?_, h.world⟩
    rw [hq]
    refine .object hlt (by simp [Store.allocate]) ?_
    rw [Store.object_push, hpayload]
    exact .number _

/-- The statements of the program have values that cannot be written. -/
def EndsUnwritten (m : Machine) (source : Source) (f : Fault) (m' : Machine) : Prop :=
  ∃ tree v, source.HasTree tree ∧
    Eval.eval (Eval.maxFuel + source.text.length - 1) (Eval.maxDepth - 1)
      (Eval.programContext source.name) tree (Eval.mainMachine m) = (.ok v, m') ∧
    (m'.store.snapshot v).written = .error f

/-- A list that only one of two machines makes cannot be told. -/
theorem Alike.listAt_right (h : Machine.Alike ρ u r) (vs : List Value) (s : Span) (c : Context) :
    ∃ v r', Eval.listAt vs s c r = (.ok v, r') ∧ Machine.Alike ρ u r' :=
  ⟨_, _, rfl, (h.store.allocateList_right _).allocate_right _, h.world⟩

theorem Alike.listAt_left {v : Value} {vs : List Value} {s : Span} {c : Context}
    (h : Machine.Alike ρ u r) (hv : Eval.listAt vs s c u = (.ok v, u')) :
    Machine.Alike ρ u' r := by
  cases hv
  exact ⟨(h.store.allocateList_left _).allocate_left _, h.world⟩

/-- Running a text that has a tree is evaluating the tree and writing what comes of it. -/
theorem run_hasTree {tree : Node} {v : Value} (hsource : source.HasTree tree)
    (h : Eval.eval (Eval.maxFuel + source.text.length - 1) (Eval.maxDepth - 1)
      (Eval.programContext source.name) tree (Eval.mainMachine r) = (.ok v, m)) :
    (∃ w, r.run source = (.value w, m)) ∨
      ∃ f, r.EndsUnwritten source f m ∧ r.run source = (.fault f, m) := by
  obtain ⟨tokens, htokens, htree⟩ := id hsource
  have htreeOf := Eval.treeOf_ok (m := r) htokens htree
  cases hw : (m.store.snapshot v).written with
  | ok t => exact .inl ⟨_, run_eq htreeOf (Eval.settle_eq h hw)⟩
  | error f =>
    exact .inr ⟨f, ⟨tree, v, hsource, h, hw⟩, run_eq htreeOf (Eval.settle_unwritten h hw)⟩

/-- A program does what its statements do as a part of another program, unless the values that it
ends with cannot be written. -/
theorem run_alike {s : Span} {C nodes : List Node} {vs : List Value} {name : String} {k : Nat}
    (hsource : source.HasTree (.list s C)) (hshapes : Node.shapes C = Node.shapes nodes)
    (hk : k + 2 ≤ Eval.maxFuel) (h : Machine.Alike ρ u (Eval.mainMachine r))
    (hclear : (Eval.Event.inside k 249 (Eval.programContext name) u (.all nodes)).AllClear ρ.apart)
    (hpart : Eval.evalAll k 249 (Eval.programContext name) nodes u = (.ok vs, u')) :
    ∃ (ρ' : Pairing) (r' : Machine), ρ'.apart = ρ.apart ∧ Machine.Alike ρ' u' r' ∧
      ((∃ v, r.run source = (.value v, r')) ∨
        ∃ f, r.EndsUnwritten source f r' ∧ r.run source = (.fault f, r')) := by
  obtain ⟨F, hF⟩ : ∃ F, Eval.maxFuel + source.text.length - 1 = F + 1 :=
    ⟨Eval.maxFuel + source.text.length - 2, by omega⟩
  have hstep : InStep ρ Relates.values (Eval.evalAll k 249 (Eval.programContext name) nodes)
      (Eval.evalAll F 249 (Eval.programContext source.name) C) u (Eval.mainMachine r) :=
    (Eval.simulated (by omega)).evalAll (alike_programContext h name source.name) hshapes hclear
  have hend := hstep h
  rw [hpart] at hend
  rcases hend with hfuel | ⟨ρ', hgrows, halike, hend⟩
  · cases hfuel
  rcases hright : Eval.evalAll F 249 (Eval.programContext source.name) C (Eval.mainMachine r) with
    ⟨e, r₁⟩
  rw [hright] at halike hend
  cases hend with
  | @ok _ ws _ =>
    obtain ⟨v, r', hlist, halike'⟩ :=
      Alike.listAt_right halike ws s (Eval.programContext source.name)
    refine ⟨ρ', r', hgrows.apart, halike', run_hasTree hsource (v := v) ?_⟩
    rw [hF, Eval.eval]
    exact (Eval.bind_ok hright).trans hlist

end Machine

theorem Node.exists_shapes_append {nodes A B : List Node} (h : Node.shapes nodes = A ++ B) :
    ∃ xs ys, nodes = xs ++ ys ∧ Node.shapes xs = A ∧ Node.shapes ys = B := by
  induction A generalizing nodes with
  | nil => exact ⟨[], nodes, rfl, rfl, h⟩
  | cons a A ih =>
    cases nodes with
    | nil => cases h
    | cons n nodes =>
      rw [Node.shapes, List.cons_append, List.cons.injEq] at h
      obtain ⟨xs, ys, rfl, hxs, hys⟩ := ih h.2
      exact ⟨n :: xs, ys, rfl, by rw [Node.shapes, h.1, hxs], hys⟩

namespace Shell

variable {ρ : Pairing} {name program : String} {l : String} {ls : List String} {r r' u u' : Machine}
  {f : Fault} {v : Value}

theorem runLines_value (h : r.run ⟨name, l⟩ = (.value v, r')) :
    runLines name r (l :: ls) = runLines name r' ls := by
  rw [runLines, h]

theorem runLines_fault (h : r.run ⟨name, l⟩ = (.fault f, r')) :
    runLines name r (l :: ls) = (f, r') := by
  rw [runLines, h]

/-- One of the lines, reached on the way, has values that cannot be written. -/
def StopsUnwritten (name : String) (r : Machine) (lines : List String) (f : Fault)
    (r' : Machine) : Prop :=
  ∃ before l behind r₁, lines = before ++ l :: behind ∧
    runLines name r before = (.exit 0, r₁) ∧ r₁.EndsUnwritten ⟨name, l⟩ f r'

theorem StopsUnwritten.cons (h : StopsUnwritten name r' ls f u)
    (hrun : r.run ⟨name, l⟩ = (.value v, r')) : StopsUnwritten name r (l :: ls) f u := by
  obtain ⟨before, l', behind, r₁, rfl, hbefore, hend⟩ := h
  exact ⟨l :: before, l', behind, r₁, rfl, (runLines_value hrun).trans hbefore, hend⟩

/-- Statements that are left of a program, to be evaluated on the machine. The program knows what
`is_main` is, and does not bind it to nothing. -/
structure Left (program : String) (k : Nat) (nodes : List Node) (u : Machine) : Prop where
  fuel : k + 2 ≤ Eval.maxFuel
  paired : (Eval.Event.inside k 249 (Eval.programContext program) u (.all nodes)).Paired
    fun _ => False
  bound : ∀ e, ReflTransGen Eval.Event.Leads
    (.inside k 249 (Eval.programContext program) u (.all nodes)) e → e.KeepsMainBound
  known : u.store.KnowsMain

/-- The machine does what the other one does, in all but a name that is hidden. -/
def Follows (u r : Machine) : Prop :=
  ∃ ρ : Pairing, (∀ t x, ρ.apart t x → u.store.MainHidden t x) ∧ Machine.Alike ρ u r

theorem Follows.mainMachine (h : Follows u r) (hu : u.store.KnowsMain) :
    Follows u (Eval.mainMachine r) := by
  obtain ⟨ρ, hapart, halike⟩ := h
  exact halike.mainMachine hu hapart

/-- The first line does what the first statements do, and the other statements are left. -/
theorem run_line_alike {B D nodes : List Node} {vs : List Value} {k : Nat}
    (hne : B ≠ []) (hline : Source.HasStatements ⟨name, l⟩ B)
    (hnodes : Node.shapes nodes = B ++ D) (hleft : Left program k nodes u)
    (h : Follows u (Eval.mainMachine r))
    (hrun : Eval.evalAll k 249 (Eval.programContext program) nodes u = (.ok vs, u')) :
    ∃ rest k' u₁ ws r₁, Node.shapes rest = D ∧ Left program k' rest u₁ ∧
      Eval.evalAll k' 249 (Eval.programContext program) rest u₁ = (.ok ws, u') ∧
      Follows u₁ r₁ ∧ ((∃ v, r.run ⟨name, l⟩ = (.value v, r₁)) ∨
        ∃ f, r.EndsUnwritten ⟨name, l⟩ f r₁ ∧ r.run ⟨name, l⟩ = (.fault f, r₁)) := by
  obtain ⟨first, rest, rfl, hfirst, hrest⟩ := Node.exists_shapes_append hnodes
  obtain ⟨k', u₁, vs₁, vs₂, hk', hpart, hothers, hreaches⟩ := Eval.evalAll_append hrun
  have hleads := Eval.Event.leads_of_reaches hreaches
  obtain ⟨⟨-, hkeeps⟩, hpaired⟩ :=
    Eval.Event.invariant_keepsMain.reaches hleft.bound hleft.paired hleads
  obtain ⟨ρ, hapart, halike⟩ := h
  have hclear : (Eval.Event.inside k 249 (Eval.programContext program) u
      (.all (first ++ rest))).AllClear ρ.apart :=
    Eval.Event.allClear_of_mainHidden hleft.bound hleft.paired hapart
  cases hline with
  | blank => exact (hne rfl).elim
  | program htree =>
    obtain ⟨ρ₁, r₁, hsame, halike₁, hend⟩ :=
      Machine.run_alike htree hfirst.symm hleft.fuel halike hclear.of_append hpart
    refine ⟨rest, k', u₁, vs₂, r₁, hrest, ⟨?_, hpaired, ?_, ?_⟩, hothers, ⟨ρ₁, ?_, halike₁⟩, hend⟩
    · have hfuel := hleft.fuel
      omega
    · exact fun e he => hleft.bound e (hleads.trans he)
    · exact hkeeps.known hleft.known
    · intro t x hx
      obtain ⟨ht, hname, hhides⟩ := hapart t x (hsame ▸ hx)
      exact ⟨ht, hname, hkeeps.hides hhides⟩

/-- Lines do one after the other what their statements do as parts of one program. -/
theorem runLines_alike {Bs : List (List Node)} {nodes : List Node} {vs : List Value} {k : Nat}
    (hlines : List.Forall₂ (fun l B => B ≠ [] ∧ Source.HasStatements ⟨name, l⟩ B) (l :: ls) Bs)
    (hnodes : Node.shapes nodes = Bs.flatten) (hleft : Left program k nodes u)
    (h : Follows u (Eval.mainMachine r))
    (hrun : Eval.evalAll k 249 (Eval.programContext program) nodes u = (.ok vs, u')) :
    ∃ f r', runLines name r (l :: ls) = (f, r') ∧
      ((f = .exit 0 ∧ Follows u' r') ∨ StopsUnwritten name r (l :: ls) f r') := by
  induction ls generalizing l Bs nodes vs k r u with
  | nil =>
    cases hlines with
    | cons hline hrest =>
      cases hrest
      obtain ⟨rest, k', u₁, ws, r₁, hnone, -, hothers, hfollows, hend⟩ :=
        run_line_alike hline.1 hline.2 hnodes hleft h hrun
      have hu : u' = u₁ := by
        cases rest with
        | nil =>
          cases k' with
          | zero =>
            rw [Eval.evalAll] at hothers
            cases hothers
          | succ k' =>
            rw [Eval.evalAll] at hothers
            cases hothers
            rfl
        | cons => cases hnone
      obtain ⟨v, hv⟩ | ⟨f, hf, hfault⟩ := hend
      · exact ⟨_, _, runLines_value hv, .inl ⟨rfl, hu ▸ hfollows⟩⟩
      · exact ⟨f, r₁, runLines_fault hfault, .inr ⟨[], l, [], r, rfl, rfl, hf⟩⟩
  | cons l' ls ih =>
    cases hlines with
    | cons hline hrest =>
      obtain ⟨rest, k', u₁, ws, r₁, hrest', hleft', hothers, hfollows, hend⟩ :=
        run_line_alike hline.1 hline.2 hnodes hleft h hrun
      obtain ⟨v, hv⟩ | ⟨f, hf, hfault⟩ := hend
      · obtain ⟨f, r', hlines', hend'⟩ :=
          ih hrest hrest' hleft' (hfollows.mainMachine hleft'.known) hothers
        refine ⟨f, r', (runLines_value hv).trans hlines', ?_⟩
        exact hend'.imp id fun hstop => hstop.cons hv
      · exact ⟨f, r₁, runLines_fault hfault, .inr ⟨[], l, _, r, rfl, rfl, hf⟩⟩

def slashed (written : String) : String :=
  String.ofList (written.toList.map fun c => if c = '\\' then '/' else c)

def lines (text : String) : List String := (Text.writtenLines text.toList).map String.ofList

theorem exists_of_readText {w : World} {path text : String} (h : w.readText path = .ok text) :
    w.files.exists? w.cwd path = true := by
  rw [FileTree.exists?]
  cases hf : w.files.find w.cwd path with
  | ok e => rfl
  | error e =>
    rw [World.readText, FileTree.read, hf] at h
    cases h

theorem script_eq {m : Machine} {path text : String}
    (h : m.world.readText (slashed path) = .ok text) :
    script m path = runLines (folder (slashed path)) m (lines text) := by
  have hblank : (fun l => !(Text.strip l).isEmpty) ∘ String.ofList =
      fun l : List Char => !l.all Text.isBlank := by
    funext l
    rw [Function.comp_apply, Text.strip_isEmpty]
  have hlines : ((Text.linesOf text.toList).map String.ofList).filter
      (fun l => !(Text.strip l).isEmpty) = lines text := by
    rw [List.filter_map, hblank]
    rfl
  have hscript : script m path = _ := if_pos (exists_of_readText h)
  rw [hscript]
  change m.world.readText (String.ofList _) = .ok text at h
  rw [h]
  exact congrArg (runLines (folder (slashed path)) m) hlines

/-- The statements of a text that is run to an end, and how they are evaluated. -/
theorem evalAll_of_runText {source : Source} {n : Nat} {m : Machine}
    (h : Eval.runText n Eval.maxDepth source r = (.ok (.ok v), m)) (hv : v ≠ .absent) :
    ∃ k s N vs u v', n = k + 2 ∧ N ≠ [] ∧ source.HasTree (.list s N) ∧
      Eval.evalAll k 249 (Eval.programContext source.name) N (Eval.mainMachine r) = (.ok vs, u) ∧
      Eval.listAt vs s (Eval.programContext source.name) u = (.ok v', m) := by
  have hdepth : Eval.runText n (249 + 1) source r = (.ok (.ok v), m) := h
  obtain ⟨k, tree, rfl, htree, hsettle⟩ := Eval.runText_eq_ok hdepth
  obtain ⟨v', heval, -⟩ := (Eval.settle_eq_ok hsettle).resolve_right fun h => hv h.1
  obtain ⟨tokens, htokens, -⟩ := id htree
  obtain ⟨ls, hls, hend⟩ := Source.exists_lexemes htokens
  obtain ⟨f, g, s, N, -, -, rfl, hy⟩ := htree.exists_feed htokens hls hend
  cases k with
  | zero =>
    rw [Eval.eval] at heval
    cases heval
  | succ k =>
    rw [Eval.eval] at heval
    obtain ⟨vs, u, hvs, hlist⟩ := Eval.bind_eq_ok heval
    exact ⟨k, s, N, vs, u, v', rfl, Parse.statements_ne_nil hy, htree, hvs, hlist⟩

/-- The statements of a text that is run on a fresh session are all left at its start. -/
theorem left_start {w : World} {text : String} {k : Nat} {s : Span} {N : List Node}
    (hk : k + 2 ≤ Eval.maxFuel) (htree : Source.HasTree ⟨program, text⟩ (.list s N))
    (hmain : ∀ e, ReflTransGen Eval.Event.Leads
      (.text (k + 2) Eval.maxDepth ⟨program, text⟩ (Machine.start w)) e → e.KeepsMainBound) :
    Left program k N (Eval.mainMachine (Machine.start w)) := by
  obtain ⟨tokens, htokens, hparse⟩ := htree
  have hprogram : Eval.Event.Leads
      (.text (k + 2) (249 + 1) ⟨program, text⟩ (Machine.start w)) _ :=
    .program (Eval.treeOf_ok htokens hparse)
  have hleads := (ReflTransGen.single hprogram).tail (.part (.enters .list))
  have hpaired : (Machine.start w).store.Paired fun _ => False := Machine.paired_freshStore id
  refine ⟨hk, ?_, fun e he => hmain e (hleads.trans he), .inr ?_⟩
  · exact (Eval.Event.invariant_keepsMain.reaches hmain hpaired hleads).2
  · exact Store.flag_bind _ 1 hpaired.tables.size

/-- Let the text of a script end with something when it is run as one program, let its lines be
separable, and let nothing in the program bind `is_main` to nothing. Then the script, run line by
line, does to the world what the one program does and leaves alike machines, in which every global
name means the same; or it stops at a line whose values cannot be written. -/
theorem script_as_one_program (w : World) (path name text : String) (n : Nat) (v : Value)
    (m : Machine) (hfile : w.readText (slashed path) = .ok text) (hn : n ≤ Eval.maxFuel)
    (hrun : Eval.runText n Eval.maxDepth ⟨name, text⟩ (Machine.start w) = (.ok (.ok v), m))
    (hv : v ≠ .absent)
    (hlines : Source.Separable (folder (slashed path)) (Text.linesOf text.toList))
    (hmain : ∀ e, ReflTransGen Eval.Event.Leads
      (.text n Eval.maxDepth ⟨name, text⟩ (Machine.start w)) e → e.KeepsMainBound) :
    ∃ f m', script (Machine.start w) path = (f, m') ∧
      ((f = .exit 0 ∧ m'.world = m.world ∧
          (∃ ρ : Pairing, (∀ t x, ρ.apart t x → m.store.MainHidden t x) ∧
            Store.Alike ρ m.store m'.store) ∧
          ∀ x, m'.store.snapshot (m'.store.lookup Eval.globals x) =
            m.store.snapshot (m.store.lookup Eval.globals x)) ∨
        ((f = .endlessNesting ∨ f = .badValue) ∧
          StopsUnwritten (folder (slashed path)) (Machine.start w) (lines text) f m')) := by
  have hpaired : (Machine.start w).store.Paired fun _ => False := Machine.paired_freshStore id
  have hafter := (Eval.Event.invariant_keepsMain.after hmain hpaired).1.1 hpaired
  rw [Eval.Event.after, hrun] at hafter
  obtain ⟨k, s, N, vs, u, v', rfl, hne, htree, hvs, hlist⟩ := evalAll_of_runText hrun hv
  obtain ⟨tokens, htokens, -⟩ := id htree
  obtain ⟨Bs, hBs, hforall⟩ := hlines.hasStatements (c := ⟨name, text⟩) rfl htokens
  have hshapes : Node.shapes N = Bs.flatten := hBs.of_hasTree htree
  have hforall' : List.Forall₂ (fun l B => B ≠ [] ∧
      Source.HasStatements ⟨folder (slashed path), l⟩ B) (lines text) Bs :=
    List.forall₂_map_left_iff.mpr hforall
  have hfile' : (Machine.start w).world.readText (slashed path) = .ok text := hfile
  obtain ⟨ρ, hstart⟩ := (Machine.sound_start w).mainMachine name
  have hfollows : Follows (Eval.mainMachine (Machine.start w))
      (Eval.mainMachine (Machine.start w)) :=
    ⟨ρ, fun t x hx => absurd hx (hstart.full.names t x), hstart.alike⟩
  rw [script_eq hfile']
  cases hl : lines text with
  | nil =>
    rw [hl] at hforall'
    cases hforall'
    exact (Node.shapes_ne_nil hne hshapes).elim
  | cons l ls =>
    rw [hl] at hforall'
    obtain ⟨f, m', hf, hend⟩ :=
      runLines_alike hforall' hshapes (left_start hn htree hmain) hfollows hvs
    refine ⟨f, m', hf, ?_⟩
    obtain ⟨rfl, ρ', hapart, halike⟩ | hstop := hend
    · have hboth := halike.listAt_left hlist
      have hapart' (t : TableRef) (x : String) (hx : ρ'.apart t x) : m.store.MainHidden t x := by
        cases hlist
        exact hapart t x hx
      refine .inl ⟨rfl, hboth.world, ⟨ρ', hapart', hboth.store⟩, fun x => ?_⟩
      refine hboth.store.snapshot_entry (hboth.store.lookup fun t ht hx => ?_)
      exact (Context.Mated.programContext hafter.tables name).ne_programNames hafter.tables ht
        (hapart' t x hx).1
    · obtain ⟨before, l', behind, r₁, hsplit, hbefore, tree, v, htree, heval, hwritten⟩ := id hstop
      exact .inr ⟨Snapshot.fault_written _ hwritten, hstop⟩

def givesObject : Except Stop (Except Diagnostic Value) → Bool
  | .ok (.ok (.object _)) => true
  | _ => false

def twoLines : String := "x = 2\nprint(x + 1)\n"

def twoLinesWorld : World := .start ⟨"/home", [(["home", "a.think"], .file twoLines)]⟩

def twoLinesRun : Eval.Event :=
  .text 20 Eval.maxDepth ⟨"a.think", twoLines⟩ (Machine.start twoLinesWorld)

/-- The script does what the two lines do as one program. -/
theorem script_as_one_program_two_lines :
    ∃ v m m', Eval.runText 20 Eval.maxDepth ⟨"a.think", twoLines⟩ (Machine.start twoLinesWorld) =
        (.ok (.ok v), m) ∧
      script (Machine.start twoLinesWorld) "a.think" = (.exit 0, m') ∧ m'.world = m.world ∧
      ∀ x, m'.store.snapshot (m'.store.lookup Eval.globals x) =
        m.store.snapshot (m.store.lookup Eval.globals x) := by
  have hend : ∀ p : Except Stop (Except Diagnostic Value) × Machine,
      givesObject p.1 = true → ∃ v m, p = (.ok (.ok v), m) ∧ v ≠ .absent := by
    rintro ⟨e | e | v, m⟩ h
    · cases h
    · cases h
    · refine ⟨v, m, rfl, ?_⟩
      rintro rfl
      cases h
  obtain ⟨v, m, hrun, hv⟩ := hend (Eval.runText 20 Eval.maxDepth ⟨"a.think", twoLines⟩
    (Machine.start twoLinesWorld)) (by decide +kernel)
  have hfile : twoLinesWorld.readText (slashed "a.think") = .ok twoLines := by decide +kernel
  have hexit : (script (Machine.start twoLinesWorld) "a.think").1 = .exit 0 := by decide +kernel
  have hbound : ∀ e ∈ Eval.Event.reached 21 twoLinesRun, e.KeepsMainBound := by
    have hall : (Eval.Event.reached 21 twoLinesRun).all (!·.unbinds "is_main") = true := by
      decide +kernel
    simpa using hall
  have hmain : ∀ e, ReflTransGen Eval.Event.Leads twoLinesRun e → e.KeepsMainBound := fun e he =>
    hbound e (Eval.Event.mem_reached_of_leads (by decide) he)
  obtain ⟨f, m', hscript, h⟩ :=
    script_as_one_program twoLinesWorld "a.think" "a.think" twoLines 20 v m
    hfile (by decide) hrun hv (by decide +kernel) hmain
  rw [hscript] at hexit
  cases hexit
  obtain ⟨-, hworld, -, hnames⟩ | ⟨h, -⟩ := h
  · exact ⟨v, m, m', hrun, hscript, hworld, hnames⟩
  · rcases h with h | h <;> cases h

end Shell

end Think
