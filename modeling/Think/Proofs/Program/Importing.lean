import Think.Proofs.Eval.StraightLine
import Think.Proofs.IntExpr.Run
import Think.Proofs.Program.Library

/-! # Importing a module

A module that consists of simple statements can be imported in a fresh session. Its names are known
afterwards, and nothing is done to the world.
-/

namespace Think

open Eval

/-- The module's text is in the library, and no file of the session's own stands in for it. -/
structure World.HasModule (w : World) (file text : String) : Prop where
  noneNearer : w.files.isFile w.cwd file = false
  isRelative : w.files.isAbsolute file = false
  text : w.files.read w.cwd (w.libraryPath ++ "/" ++ file) = .ok text

theorem FileTree.isFile_of_read {files : FileTree} {cwd : Path} {written text : String}
    (h : files.read cwd written = .ok text) : files.isFile cwd written = true := by
  unfold FileTree.read at h
  unfold FileTree.isFile
  cases hfind : files.find cwd written with
  | error e =>
    rw [hfind] at h
    cases h
  | ok found =>
    rw [hfind] at h
    obtain ⟨p, _ | _⟩ := found
    · cases h
    · rfl

/-- The text is read as statements by which more is known than before, and their values are not
taken for null. -/
structure Library.Loads (text : String) (known known' : String → Option Payload) : Prop where
  unified : Text.unified text = text
  does : ∀ (name : String) (k : Nat), ∃ tokens tree es ps xs t,
    (⟨name, text⟩ : Source).tokens = .ok tokens ∧ Node.ofTokens tokens = .ok tree ∧
    tree.shape = .list default es ∧ DoesAll (k + 12) known es ps known' ∧
    ps.map Payload.leaf? = xs.map some ∧ (Snapshot.list xs).written = .ok t ∧ t ≠ "null"

theorem Library.Loads.of_statements {text t : String} {known known' : String → Option Payload}
    {es : List Node} {ps : List Payload} {xs : List Snapshot} (hunified : Text.unified text = text)
    (htree : ∀ name, ∃ tokens tree, (⟨name, text⟩ : Source).tokens = .ok tokens ∧
      Node.ofTokens tokens = .ok tree ∧ tree.shape = .list default es)
    (hdoes : ∀ k, DoesAll (k + 12) known es ps known') (hps : ps.map Payload.leaf? = xs.map some)
    (hwritten : (Snapshot.list xs).written = .ok t) (ht : t ≠ "null") :
    Loads text known known' := by
  refine ⟨hunified, fun name k => ?_⟩
  obtain ⟨tokens, tree, htokens, htree, hshape⟩ := htree name
  exact ⟨tokens, tree, es, ps, xs, t, htokens, htree, hshape, hdoes k, hps, hwritten, ht⟩

namespace Eval

open Store

variable {m : Machine} {k d : Nat} {file text : String} {known known' : String → Option Payload}

theorem importFile_module (h : m.world.HasModule file text) (c : Context) (span : Span) :
    importFile c span file m = (.ok (m.world.libraryPath ++ "/" ++ file), m) := by
  have hworld : world m = (.ok m.world, m) := rfl
  have hfile := FileTree.isFile_of_read h.text
  rw [importFile, bind_ok hworld]
  dsimp only
  simp only [h.noneNearer, h.isRelative, hfile, Bool.false_eq_true, if_false, if_true]
  rfl

/-- Importing the text of a module succeeds, and its names are known afterwards. -/
theorem importText_module (hw : m.world.HasModule file text)
    (htext : Library.Loads text known known') (hm : m.store.Offers globals known) :
    ∃ r m' lists rs xs t,
      importText (k + 14) (d + 2) (m.world.libraryPath ++ "/" ++ file) m =
        (.ok (.ok (.object r)), m') ∧
      m'.store.ShowsLeaves r lists rs xs ∧ (Snapshot.list xs).written = .ok t ∧ t ≠ "null" ∧
      m'.store.Offers globals known' ∧ m'.world = m.world := by
  let path := m.world.libraryPath ++ "/" ++ file
  obtain ⟨tokens, tree, es, ps, xs, t, htokens, htree, hshape, hdoes, hps, hwritten, ht⟩ :=
    htext.does path k
  obtain ⟨span, ns, rfl, hns⟩ := Node.eq_list hshape
  have hread : readFile path m = (.ok text, m) := by
    have hworld : world m = (.ok m.world, m) := rfl
    have hunified : m.world.readText path = .ok text := by
      rw [World.readText, hw.text]
      exact congrArg Except.ok htext.unified
    rw [readFile, bind_ok hworld, hunified]
    rfl
  let hidden : TableRef := ⟨m.store.tables.size⟩
  let s₁ := (m.store.allocateTable ⟨[], []⟩).2
  let s₂ := (s₁.allocate (.fresh (.number (.int 0)))).2
  let m₁ : Machine := ⟨s₂.bind hidden "is_main" (.object ⟨s₁.objects.size⟩), m.world⟩
  have hext : m.store.Extends m₁.store :=
    ((Extends.allocateTable m.store _).trans (.allocate s₁ _)).bind (Nat.le_refl _) _ _
  obtain ⟨rs, m₂, hall, hrange, hshapes, hm₂, -, hworld₂⟩ :=
    hdoes.evalAll (c := moduleContext path hidden) hns (hm.extend hext) d
  obtain ⟨r, m₃, hr, hext₃, hworld₃, hshows⟩ :=
    eval_leaves hall hrange (by rw [hshapes, hps]) span
  refine ⟨r, m₃, _, rs, xs, t, ?_, hshows, hwritten, ht, hm₂.extend hext₃,
    hworld₃.trans hworld₂⟩
  have hsettle : settle (eval (k + 13) (d + 1) (moduleContext path hidden) (.list span ns)) m₁ =
      (.ok (.ok (.object r)), m₃) := settle_ok hr (by rw [hshows.snapshot, hwritten]) ht
  rw [importText]
  refine (bind_ok hread).trans ((bind_ok (treeOf_ok htokens htree)).trans ?_)
  exact hsettle

/-- No text is so short that a program has less fuel than this. -/
theorem exists_fuel {n : Nat} (hn : n < maxFuel) (text : String) :
    ∃ k, maxFuel + text.length - 1 = k + n :=
  ⟨maxFuel + text.length - 1 - n, by omega⟩

end Eval

namespace Machine

variable {word file text line : String} {known known' : String → Option Payload}

theorem exists_tree_import (hline : Source.HasWords line [.keyword .importKw, .text word])
    (hfile : importPath word = file) (name : String) : ∃ tokens tree,
    (⟨name, line⟩ : Source).tokens = .ok tokens ∧ Node.ofTokens tokens = .ok tree ∧
      tree.shape = .list default [.importFile default file] := by
  obtain ⟨tokens, htokens, hlexemes⟩ := Source.tokens_lines name (.cons hline .nil)
  have himport : Prints (.bare (.importFile default (importPath word))) _ := .importFile word
  rw [hfile] at himport
  have hprogram : Prints (.program [.importFile default file]) _ :=
    .program 0 0 (.statements (.statement (.bare (Nat.zero_le _) himport)) .noMoreStatements)
  obtain ⟨tree, htree, hshape⟩ := hprogram.ofTokens hlexemes
  exact ⟨tokens, tree, by rwa [String.intercalate_singleton] at htokens, htree, hshape⟩

/-- A module of the library can be imported in a fresh session. -/
theorem run_import {w : World} (hw : w.HasModule file text)
    (htext : Library.Loads text known known') (hm : (start w).store.Offers globals known)
    (hmain : known "is_main" = none)
    (hline : Source.HasWords line [.keyword .importKw, .text word])
    (hfile : importPath word = file) (name : String) :
    ∃ v m, (start w).run ⟨name, line⟩ = (.value v, m) ∧ m.store.Offers globals known' ∧
      m.world = (start w).world := by
  obtain ⟨tokens, tree, htokens, htree, hshape⟩ := exists_tree_import hline hfile name
  obtain ⟨span, _, rfl, hns⟩ := Node.eq_list hshape
  obtain ⟨n, rfl, hn⟩ := Node.shapes_eq_single hns
  obtain ⟨place, rfl⟩ := Node.eq_importFile hn
  have hw : (mainMachine (start w)).world.HasModule file text :=
    ⟨hw.noneNearer, hw.isRelative, hw.text⟩
  obtain ⟨k, hk⟩ := exists_fuel (n := 17) (by decide) line
  obtain ⟨r, m, lists, rs, xs, t, himport, hshows, hwritten, ht, hm₁, hworld⟩ :=
    importText_module (k := k) (d := 247) hw htext (offers_mainMachine hm hmain)
  have heval : eval (k + 15) 249 (programContext name) (.importFile place file)
      (mainMachine (start w)) = (.ok (.object r), m) := by
    rw [eval, bind_ok (importFile_module hw _ place)]
    exact (bind_ok himport).trans rfl
  obtain ⟨q, m', hq, hext, hworld', hpayload, hlists⟩ := eval_list (evalAll_single heval) span
  have hsettle : settle (eval (k + 17) 249 (programContext name)
      (.list span [.importFile place file])) (mainMachine (start w)) =
        (.ok (.ok (.object q)), m') := by
    refine settle_ok hq ?_ ht
    rw [hshows.snapshot_single hext hpayload hlists, Snapshot.written_singleton, hwritten]
  rw [← hk] at hsettle
  exact ⟨.object q, m', run_eq (treeOf_ok htokens htree) hsettle, hm₁.extend hext,
    hworld'.trans hworld⟩

end Machine

end Think
