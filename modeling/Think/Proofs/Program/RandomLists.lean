import Think.Proofs.Eval.Conditions
import Think.Proofs.Program.MathLibrary

/-! # Lists of random numbers

The library's function for lists of random numbers draws one in each round of a loop and puts it, or
a multiple of it, at the end of a list of its own. So it advances the random numbers just as often
as it is asked to, and nothing of its caller changes.
-/

namespace Think

namespace World

def afterDraw (w : World) : World := { w with random := (w.draw w.random).2 }

def drawn (w : World) : Nat → World
  | 0 => w
  | n + 1 => w.afterDraw.drawn n

def upcoming (w : World) : Nat → List Float
  | 0 => []
  | n + 1 => (w.draw w.random).1 :: w.afterDraw.upcoming n

theorem length_upcoming (w : World) (n : Nat) : (w.upcoming n).length = n := by
  induction n generalizing w with
  | zero => rfl
  | succ n ih => rw [upcoming, List.length_cons, ih]

end World

namespace Library

def scale? (t : String) : Option (Float → Float) :=
  if t = "<int>" then some (· * 1000000) else if t = "<float>" then some id else none

structure KnowsRandom (known : String → Option Payload) : Prop where
  random : known "random" = some (.builtin "random")
  append : known "append" = some (.builtin "append")
  error : known "error" = some (.builtin "error")
  int : known "int" = some (.text "<int>")
  float : known "float" = some (.text "<float>")

structure KnowsRandList (known : String → Option Payload) : Prop extends KnowsRandom known where
  function : known "rand_list" =
    some (.function "rand_list" ["size", "type"] randListBody false)

structure Asks (known : String → Option Payload) (n : Int) (t : String) : Prop
    extends KnowsRandom known where
  size : known "size" = some (.number (.int n))
  type : known "type" = some (.text t)

structure KnowsRound (known : String → Option Payload) (cells : ListRef) : Prop where
  random : known "random" = some (.builtin "random")
  append : known "append" = some (.builtin "append")
  res : known "res" = some (.list cells)

theorem KnowsRound.update {known : String → Option Payload} {cells : ListRef}
    (h : KnowsRound known cells) {x : String} (hx : x ∉ ["random", "append", "res"])
    (p : Option Payload) : KnowsRound (Function.update known x p) cells := by
  simp only [List.mem_cons, List.not_mem_nil, or_false, not_or] at hx
  obtain ⟨hrandom, happend, hres⟩ := hx
  constructor
  · rw [Function.update_of_ne (Ne.symm hrandom), h.random]
  · rw [Function.update_of_ne (Ne.symm happend), h.append]
  · rw [Function.update_of_ne (Ne.symm hres), h.res]

end Library

open Library

namespace Store

/-- A call, in whose context names are known, has a list of its own that holds the numbers so far.
Whatever there was before is still the same. -/
structure Filling (base : Store) (c : Context) (known : String → Option Payload) (cells : ListRef)
    (xs : List Float) (s : Store) : Prop where
  keeps : base.Extends s
  newSymbols : base.tables.size ≤ c.symbols.index
  newHidden : base.tables.size ≤ c.hidden.index
  isNew : base.lists.size ≤ cells.index
  isThere : cells.index < s.lists.size
  offers : s.Offers c.symbols known
  knows : KnowsRound known cells
  holds : ∃ rs : List ObjectRef, s.elements cells = (rs.map .object).toArray ∧
    rs.map (fun r => (s.object r).payload) = xs.map fun x => .number (.float x)

namespace Filling

variable {base s s' : Store} {c : Context} {known known' : String → Option Payload}
  {cells : ListRef} {xs : List Float} {x : String} {y : Float} {r : ObjectRef} {p : Payload}

theorem extend (h : Filling base c known cells xs s) (hs : s.Extends s') :
    Filling base c known cells xs s' := by
  refine ⟨h.keeps.trans hs, h.newSymbols, h.newHidden, h.isNew,
    Nat.lt_of_lt_of_le h.isThere hs.listsSize, h.offers.extend hs, h.knows, ?_⟩
  obtain ⟨rs, helements, hpayloads⟩ := h.holds
  refine ⟨rs, (hs.elements cells h.isThere).trans helements, ?_⟩
  rw [← hpayloads]
  apply List.map_congr_left
  intro r hr
  have hnumber : (s.object r).payload ∈ xs.map fun x => Payload.number (.float x) := by
    rw [← hpayloads]
    exact List.mem_map_of_mem hr
  obtain ⟨x, -, hx⟩ := List.mem_map.mp hnumber
  rw [hs.object r (index_lt (by simp [← hx]))]

/-- The list is empty when it has just been made and got its name. -/
theorem initial (hbase : base.Extends s) (hsymbols : base.tables.size ≤ c.symbols.index)
    (hhidden : base.tables.size ≤ c.hidden.index) (hs : s.Offers c.symbols known)
    (hknown : KnowsRandom known) (hext : s.Extends s')
    (hr : (s'.object r).payload = .list ⟨s.lists.size⟩) (hlists : s'.lists = s.lists.push #[]) :
    Filling base c (Function.update known "res" (some (.list ⟨s.lists.size⟩))) ⟨s.lists.size⟩ []
      ((s'.bind c.symbols "res" (.object r)).bind c.hidden "res" (.object r)) := by
  have hthere : r.index < s'.objects.size := index_lt (by simp [hr])
  have hshape : (s'.object r).payload.shape = .list ⟨s.lists.size⟩ := by rw [hr]; rfl
  refine ⟨((hbase.trans hext).bind hsymbols _ _).bind hhidden _ _, hsymbols, hhidden,
    hbase.listsSize, ?_, (hs.extend hext).assign c.hidden "res" hthere hshape,
    ⟨hknown.random, hknown.append, Function.update_self ..⟩, [], ?_, rfl⟩
  · simp [Store.bind, hlists]
  · simp [Store.bind, elements, hlists]

/-- Names may be bound in the tables of the call, as far as a round can do without them. -/
theorem bindIn (h : Filling base c known cells xs s) {t : TableRef}
    (ht : base.tables.size ≤ t.index) {v : Value} (hoffers : (s.bind t x v).Offers c.symbols known')
    (hknows : KnowsRound known' cells) : Filling base c known' cells xs (s.bind t x v) :=
  ⟨h.keeps.bind ht x v, h.newSymbols, h.newHidden, h.isNew, h.isThere, hoffers, hknows, h.holds⟩

theorem bind (h : Filling base c known cells xs s) (hx : x ∉ ["random", "append", "res"])
    (hr : r.index < s.objects.size) (hp : (s.object r).payload.shape = p) :
    Filling base c (Function.update known x (some p)) cells xs (s.bind c.symbols x (.object r)) :=
  h.bindIn h.newSymbols (h.offers.bind x hr hp) (h.knows.update hx _)

theorem assign (h : Filling base c known cells xs s) (hx : x ∉ ["random", "append", "res"])
    (hr : r.index < s.objects.size) (hp : (s.object r).payload.shape = p) :
    Filling base c (Function.update known x (some p)) cells xs
      ((s.bind c.symbols x (.object r)).bind c.hidden x (.object r)) :=
  (h.bind hx hr hp).bindIn h.newHidden (h.offers.assign c.hidden x hr hp) (h.knows.update hx _)

theorem push (h : Filling base c known cells xs s)
    (hr : (s.object r).payload = .number (.float y)) :
    Filling base c known cells (xs ++ [y]) (s.updateList cells (·.push (.object r))) := by
  obtain ⟨rs, helements, hpayloads⟩ := h.holds
  refine ⟨h.keeps.updateList h.isNew _, h.newSymbols, h.newHidden, h.isNew, ?_,
    h.offers.updateList cells _, h.knows, rs ++ [r], ?_, ?_⟩
  · simpa [updateList] using h.isThere
  · rw [elements_updateList, if_pos ⟨rfl, h.isThere⟩, helements]
    simp
  · change (rs ++ [r]).map (fun r => (s.object r).payload) = _
    rw [List.map_append, List.map_append, hpayloads, List.map_singleton, hr, List.map_singleton]

theorem snapshot (h : Filling base c known cells xs s) (hr : (s.object r).payload = .list cells) :
    s.snapshot (.object r) = .list (xs.map fun x => .number (.float x)) := by
  obtain ⟨rs, helements, hpayloads⟩ := h.holds
  have hleaves : (rs.map fun q => (s.object q).payload.shape).map Payload.leaf? =
      (xs.map fun x => Snapshot.number (.float x)).map some := by
    have hshapes := congrArg (List.map fun p : Payload => p.shape.leaf?) hpayloads
    rw [List.map_map, List.map_map] at hshapes ⊢
    exact hshapes
  obtain ⟨n, hn⟩ : ∃ n, s.lists.size = n + 1 := ⟨s.lists.size - 1, by have := h.isThere; omega⟩
  rw [Store.snapshot, hn, snapshotBelow_list hr (by simp) helements,
    map_snapshotBelow_leaves hleaves]

end Filling

end Store

namespace Eval

open BuiltinCall (nullValue)
open Store

variable {base : Store} {c : Context} {known : String → Option Payload} {cells : ListRef}
  {xs : List Float} {m : Machine} {n : Node} {k d : Nat}

theorem eval_drawCall (hn : n.shape = drawCall) (hm : m.store.Offers c.symbols known)
    (hrandom : known "random" = some (.builtin "random")) : ∃ r m',
      eval (k + 3) (d + 1) c n m = (.ok (.object r), m') ∧
      m.store.NewObject m'.store r (.number (.float (m.world.draw m.world.random).1)) ∧
      m'.world = m.world.afterDraw := by
  obtain ⟨span, _, _, rfl, hcallee, hargs⟩ := Node.eq_call hn
  obtain ⟨place, rfl⟩ := Node.eq_access hcallee
  obtain rfl := Node.shapes_eq_nil hargs
  obtain ⟨m₁, hext₁, hworld₁, hperforms⟩ :=
    eval_call_performs (b := .random) (by decide) hm hrandom (k + 1) d place span []
  obtain ⟨call, m₂, hgiven, heval⟩ :=
    hperforms [] m₁ evalAll_nil ⟨Nat.le_refl _, fun _ _ => rfl⟩ rfl
  have hext₂ : m.store.Extends m₂.store := hgiven.keeps hext₁ (by simp)
  have hworld₂ : m₂.world = m.world := hgiven.world.trans hworld₁
  let p : Payload := .number (.float (m.world.draw m.world.random).1)
  let m₃ : Machine := ⟨(m₂.store.allocate (.fresh p)).2, m.world.afterDraw⟩
  have hnew : NewObject m₂.store m₃.store ⟨m₂.store.objects.size⟩ p := .allocate m₂.store rfl
  have hdraw : call.perform .random [] m₂ = (.ok (.object ⟨m₂.store.objects.size⟩), m₃) := by
    simp only [m₃, p, ← hworld₂]
    rfl
  obtain ⟨q, m₄, hq, hnewq⟩ := resultAt_new hnew.carries (by simp [p]) span c
  refine ⟨q, m₄, ?_, .after hext₂ (.after hnew.toExtends hnewq.toNewObject), hnewq.world⟩
  rw [heval, bind_ok hdraw, hq]

theorem eval_scaledDraw
    (hn : n.shape = .binary default .mul drawCall (.number default (.int 1000000)))
    (hm : m.store.Offers c.symbols known) (hrandom : known "random" = some (.builtin "random")) :
    ∃ r m', eval (k + 4) (d + 1) c n m = (.ok (.object r), m') ∧
      m.store.NewObject m'.store r (.number (.float ((m.world.draw m.world.random).1 * 1000000))) ∧
      m'.world = m.world.afterDraw := by
  obtain ⟨span, x, y, rfl, hx, hy⟩ := Node.eq_binary hn
  obtain ⟨l, m₁, hl, hnewl, hworld₁⟩ := eval_drawCall (k := k) (d := d) hx hm hrandom
  have hmillion : Worth known (k + 3) (.number default (.int 1000000)) (.number (.int 1000000)) :=
    .int
  obtain ⟨r, m₂, hr, hnewr⟩ := hmillion.eval hy (hm.extend hnewl.toExtends) d
  have hleft := Payload.shape_eq_number.mp (hnewl.keep hnewr.toExtends)
  have hright : Operator.payload? (.object r) m₂ = (.ok (some (.number (.int 1000000))), m₂) := by
    rw [← Payload.shape_eq_number.mp hnewr.carries]
    rfl
  have hproduct : Operator.binary .mul l (.object r) m₂ = Operator.result l
      (.number (.float ((m.world.draw m.world.random).1 * 1000000))) m₂ := by
    rw [Operator.binary, bind_ok (object_apply l m₂), hleft]
    exact (bind_ok hright).trans rfl
  obtain ⟨q, m₃, hq, hnew⟩ := binary_result hproduct rfl span
  refine ⟨q, m₃, ?_, .after (hnewl.toExtends.trans hnewr.toExtends) hnew.toNewObject,
    hnew.world.trans (hnewr.world.trans hworld₁)⟩
  rw [eval, bind_ok hl, bind_ok hr, hq]

theorem eval_keepCall {e : Node} {y : Float} {w : World} (hn : n.shape = keepCall e)
    (h : Filling base c known cells xs m.store)
    (he : ∀ (x : Node) (m₁ : Machine), x.shape = e → m₁.store.Offers c.symbols known →
      m₁.world = m.world → ∃ r m₂, eval (k + 3) (d + 1) c x m₁ = (.ok (.object r), m₂) ∧
        m₁.store.NewObject m₂.store r (.number (.float y)) ∧ m₂.world = w) :
    ∃ v m', eval (k + 6) (d + 1) c n m = (.ok v, m') ∧
      Filling base c known cells (xs ++ [y]) m'.store ∧ m.store.KeepsObjects m'.store ∧
      m'.world = w := by
  obtain ⟨span, _, _, rfl, hcallee, hargs⟩ := Node.eq_call hn
  obtain ⟨place, rfl⟩ := Node.eq_access hcallee
  obtain ⟨list, _, rfl, hlist, hargs⟩ := Node.shapes_eq_cons hargs
  obtain ⟨item, rfl, hitem⟩ := Node.shapes_eq_single hargs
  obtain ⟨m₁, hext₁, hworld₁, hperforms⟩ := eval_call_performs (b := .append) (by decide) h.offers
    h.knows.append (k + 4) d place span [list, item]
  have hname : Worth known (k + 4) (.access default "res") (.list cells) :=
    .name h.knows.res (by simp)
  obtain ⟨l, m₂, hl, hnewl⟩ := hname.eval hlist (h.offers.extend hext₁) d
  have hext₂ := hext₁.trans hnewl.toExtends
  obtain ⟨r, m₃, hr, hnewr, hworld₃⟩ :=
    he item m₂ hitem (h.offers.extend hext₂) (hnewl.world.trans hworld₁)
  obtain ⟨call, m₄, hgiven, heval⟩ := hperforms [l, r] m₃ (evalAll_pair hl hr)
    (hnewl.toKeepsObjects.trans hnewr.toKeepsObjects) rfl
  have hext₄ : m.store.Extends m₄.store := by
    apply hgiven.keeps (hext₂.trans hnewr.toExtends)
    have hlnew := Nat.le_trans hext₁.objectsSize hnewl.isNew
    have hrnew := Nat.le_trans hext₂.objectsSize hnewr.isNew
    simp [hlnew, hrnew]
  have hcells : (m₄.store.object l).payload = .list cells := by
    rw [hgiven.payload]
    exact Payload.shape_eq_list.mp (hnewl.keep hnewr.toExtends)
  have hnumber : (m₄.store.object r).payload = .number (.float y) := by
    rw [hgiven.payload]
    exact Payload.shape_eq_number.mp hnewr.carries
  let m₅ : Machine := ⟨m₄.store.updateList cells (·.push (.object r)), m₄.world⟩
  have hpush : Filling base c known cells (xs ++ [y]) m₅.store := (h.extend hext₄).push hnumber
  have happend : call.perform .append [l, r] m₄ = (.ok (.object r), m₅) := by
    rw [BuiltinCall.perform, BuiltinCall.append, bind_ok (object_apply l m₄), hcells]
    rfl
  have hshape : (m₅.store.object r).payload.shape = .number (.float y) :=
    congrArg Payload.shape hnumber
  obtain ⟨q, m₆, hq, hnewq⟩ := resultAt_new hshape (by simp) span c
  have hkeeps : m₄.store.KeepsObjects m₅.store := ⟨Nat.le_refl _, fun _ _ => rfl⟩
  refine ⟨.object q, m₆, ?_, hpush.extend hnewq.toExtends,
    hext₄.toKeepsObjects.trans (hkeeps.trans hnewq.toKeepsObjects),
    hnewq.world.trans (hgiven.world.trans hworld₃)⟩
  rw [heval, bind_ok happend, hq]

def DrawsOnce (fuel depth : Nat) (round : Node) (f : Float → Float) : Prop :=
  ∀ {base c known cells xs} {m : Machine} {body : Node}, body.shape = round →
    Filling base c known cells xs m.store → ∃ v m' known',
      eval fuel depth c body m = (.ok v, m') ∧
      Filling base c known' cells (xs ++ [f (m.world.draw m.world.random).1]) m'.store ∧
      m.store.KeepsObjects m'.store ∧ m'.world = m.world.afterDraw

theorem drawsOnce_plainRound : DrawsOnce (k + 9) (d + 1) plainRound id := by
  intro base c known cells xs m body hbody h
  obtain ⟨span, _, rfl, hns⟩ := Node.eq_list hbody
  obtain ⟨keep, rfl, hkeep⟩ := Node.shapes_eq_single hns
  obtain ⟨v, m₁, hv, hfilling, hkeeps, hworld⟩ := eval_keepCall (k := k + 1) (d := d)
    (y := (m.world.draw m.world.random).1) (w := m.world.afterDraw) hkeep h
    fun x m₁ hx hm₁ hworld => by
      have hdraw := eval_drawCall (k := k + 1) (d := d) hx hm₁ h.knows.random
      rwa [hworld] at hdraw
  obtain ⟨r, m₂, hr, hext, hworld₂, -⟩ := eval_list (evalAll_single hv) span
  exact ⟨_, m₂, known, hr, hfilling.extend hext, hkeeps.trans hext.toKeepsObjects,
    hworld₂.trans hworld⟩

theorem drawsOnce_scaledRound : DrawsOnce (k + 9) (d + 1) scaledRound (· * 1000000) := by
  intro base c known cells xs m body hbody h
  obtain ⟨span, _, rfl, hns⟩ := Node.eq_list hbody
  obtain ⟨assign, _, rfl, hassign, hns⟩ := Node.shapes_eq_cons hns
  obtain ⟨keep, rfl, hkeep⟩ := Node.shapes_eq_single hns
  obtain ⟨place, product, rfl, hproduct⟩ := Node.eq_assign hassign
  obtain ⟨r, m₁, hr, hnew, hworld₁⟩ :=
    eval_scaledDraw (k := k + 2) (d := d) hproduct h.offers h.knows.random
  let m₂ : Machine :=
    ⟨(m₁.store.bind c.symbols "gen" (.object r)).bind c.hidden "gen" (.object r), m₁.world⟩
  have hassigned : eval (k + 7) (d + 1) c (.assign place "gen" product) m =
      (.ok (.object r), m₂) := by
    rw [eval, bind_ok hr]
    rfl
  have hfilling₂ := (h.extend hnew.toExtends).assign (x := "gen") (by decide) hnew.isThere
    hnew.carries
  obtain ⟨v, m₃, hv, hfilling₃, hkeeps₃, hworld₃⟩ := eval_keepCall (k := k) (d := d) (m := m₂)
    (w := m.world.afterDraw) hkeep hfilling₂ fun x m₁ hx hm₁ hworld => by
      obtain ⟨q, m₂, hq, hnewq⟩ := (Worth.name (Function.update_self ..) (by simp)).eval hx hm₁ d
      exact ⟨q, m₂, hq, hnewq.toNewObject, hnewq.world.trans (hworld.trans hworld₁)⟩
  obtain ⟨q, m₄, hq, hext, hworld₄, -⟩ := eval_list (evalAll_pair hassigned hv) span
  have hkeeps₂ : m.store.KeepsObjects m₂.store :=
    hnew.toKeepsObjects.trans ((KeepsObjects.bind ..).trans (.bind ..))
  exact ⟨_, m₄, _, hq, hfilling₃.extend hext,
    hkeeps₂.trans (hkeeps₃.trans hext.toKeepsObjects), hworld₄.trans hworld₃⟩

def Fills (base : Store) (c : Context) (cells : ListRef) (xs : List Float) (w : World)
    (x : Eval Value) (m : Machine) : Prop :=
  ∃ v m' known, x m = (.ok v, m') ∧ Filling base c known cells xs m'.store ∧ m'.world = w

/-- Each round draws one number, until the loop's name has counted up to the size. -/
theorem repeatFor_draws {round body : Node} {f : Float → Float} {size : Int} {last : ObjectRef}
    (hround : ∀ k, DrawsOnce (k + 9) (d + 1) round f) (hbody : body.shape = round) (count : Nat)
    {i : Int} (hcount : (size - i).toNat = count) (h : Filling base c known cells xs m.store)
    (hlast : (m.store.object last).payload = .number (.int size)) (done : List Value) :
    ∃ vs m' known', repeatFor (count + k + 10) (d + 1) c "i" (.int i) (.int 1)
        (decide ((0 : Int) ≤ 1)) (.object last) body done m = (.ok vs, m') ∧
      Filling base c known' cells (xs ++ (m.world.upcoming count).map f) m'.store ∧
      m'.world = m.world.drawn count := by
  have hstart := startRound_int c "i" i 1 hlast
  induction count generalizing i m known xs done with
  | zero =>
    rw [if_neg (by simp; omega)] at hstart
    refine ⟨done.reverse, m, known, ?_, by simpa [World.upcoming] using h, rfl⟩
    rw [repeatFor, bind_ok hstart]
    rfl
  | succ count ih =>
    rw [if_pos (by simp; omega)] at hstart
    let before := m.counting c.symbols "i" i
    have hnew : NewObject m.store (m.store.allocate (.fresh (.number (.int i)))).2
        ⟨m.store.objects.size⟩ (.number (.int i)) := .allocate m.store rfl
    have hbefore : Filling base c _ cells xs before.store :=
      (h.extend hnew.toExtends).bind (x := "i") (by decide) hnew.isThere hnew.carries
    obtain ⟨v, m₁, known₁, hv, hfilling₁, hkeeps, hworld₁⟩ :=
      hround (count + k + 1) hbody hbefore
    have hlast₁ : (m₁.store.object last).payload = .number (.int size) := by
      have hthere : last.index < m.store.objects.size := index_lt (by simp [hlast])
      have hobject : before.store.object last = m.store.object last := hnew.object last hthere
      rw [hkeeps.object last (Nat.lt_of_lt_of_le hthere hnew.objectsSize), hobject, hlast]
    obtain ⟨vs, m₂, known₂, hvs, hfilling₂, hworld₂⟩ := ih (i := i + 1) (by omega) hfilling₁ hlast₁
      (v :: done) (startRound_int c "i" (i + 1) 1 hlast₁)
    rw [hworld₁] at hfilling₂ hworld₂
    refine ⟨vs, m₂, known₂, ?_, ?_, hworld₂⟩
    · have hfuel : count + 1 + k + 10 = count + k + 10 + 1 := by omega
      let r : Round := ⟨before, .ok v, m₁⟩
      rw [hfuel, repeatFor_goesOn (r := r) hstart hv rfl]
      exact hvs
    · rw [World.upcoming, List.map_cons, List.append_cons]
      exact hfilling₂

/-- The loop draws as many numbers as the size says, and none if it is negative. -/
theorem eval_drawLoop {round : Node} {f : Float → Float} {size : Int}
    (hn : n.shape = drawLoop round) (hround : ∀ k, DrawsOnce (k + 9) (d + 1) round f)
    (h : Filling base c known cells xs m.store)
    (hsize : known "size" = some (.number (.int size))) :
    Fills base c cells (xs ++ (m.world.upcoming size.toNat).map f) (m.world.drawn size.toNat)
      (eval (size.toNat + k + 11) (d + 1) c n) m := by
  obtain ⟨span, x, y, body, rfl, hx, hy, hbody⟩ := Node.eq_forLoop_none hn
  have hzero : Worth known (size.toNat + k + 10) (.number default (.int 0)) (.number (.int 0)) :=
    .int
  have hname : Worth known (size.toNat + k + 10) (.access default "size") (.number (.int size)) :=
    .name hsize (by simp)
  obtain ⟨first, m₁, hfirst, hnew₁⟩ := hzero.eval hx h.offers d
  obtain ⟨last, m₂, hlast, hnew₂⟩ := hname.eval hy (h.offers.extend hnew₁.toExtends) d
  let m₃ : Machine := ⟨(m₂.store.allocate (.fresh (.number (.int 1)))).2, m₂.world⟩
  have hnew₃ : m₂.Makes m₃ ⟨m₂.store.objects.size⟩ (.number (.int 1)) := .allocate m₂ rfl
  have hstep : stepValue (size.toNat + k + 10) (d + 1) c none m₂ =
      (.ok (.object ⟨m₂.store.objects.size⟩), m₃) := rfl
  have hstart := loopStart_int
    (Payload.shape_eq_number.mp (hnew₁.keep (hnew₂.toExtends.trans hnew₃.toExtends)))
    (Payload.shape_eq_number.mp hnew₃.carries)
  have hfilling₃ := h.extend (hnew₁.toExtends.trans (hnew₂.toExtends.trans hnew₃.toExtends))
  have hworld₃ : m₃.world = m.world := hnew₂.world.trans hnew₁.world
  obtain ⟨vs, m', known', hvs, hfilling, hworld⟩ := repeatFor_draws (k := k) (i := 0) hround hbody
    size.toNat (by omega) hfilling₃ (Payload.shape_eq_number.mp (hnew₂.keep hnew₃.toExtends)) []
  rw [hworld₃] at hfilling hworld
  refine ⟨nullValue, m', known', ?_, hfilling, hworld⟩
  rw [eval_forLoop, bind_ok hfirst, bind_ok hlast, bind_ok hstep, bind_ok hstart]
  exact (bind_ok hvs).trans rfl

theorem eval_drawBlock {round : Node} {f : Float → Float} {size : Int}
    (hn : n.shape = .list default [drawLoop round])
    (hround : ∀ k, DrawsOnce (k + 9) (d + 1) round f)
    (h : Filling base c known cells xs m.store)
    (hsize : known "size" = some (.number (.int size))) :
    Fills base c cells (xs ++ (m.world.upcoming size.toNat).map f) (m.world.drawn size.toNat)
      (eval (size.toNat + k + 13) (d + 1) c n) m := by
  obtain ⟨span, _, rfl, hns⟩ := Node.eq_list hn
  obtain ⟨loop, rfl, hloop⟩ := Node.shapes_eq_single hns
  obtain ⟨v, m₁, known₁, hv, hfilling, hworld⟩ := eval_drawLoop (k := k) hloop hround h hsize
  obtain ⟨r, m₂, hr, hext, hworld₂, -⟩ := eval_list (evalAll_single hv) span
  exact ⟨_, m₂, known₁, hr, hfilling.extend hext, hworld₂.trans hworld⟩

/-- The evaluation ends with the error for kinds that are not known. Nothing is drawn before. -/
def Refuses (base : Store) (x : Eval Value) (m : Machine) : Prop :=
  ∃ report m', x m = (.error (.error report), m') ∧ report.kind = .runtime ∧
    report.details = "Type not supported for rand_list" ∧ base.Extends m'.store ∧
    m'.world = m.world

def Answers (base : Store) (c : Context) (cells : ListRef) (count : Nat) (t : String)
    (x : Eval Value) (m : Machine) : Prop :=
  (∀ f, scale? t = some f →
    Fills base c cells ((m.world.upcoming count).map f) (m.world.drawn count) x m) ∧
  (scale? t = none → Refuses base x m)

namespace Answers

variable {count : Nat} {t : String} {x y : Eval Value} {m₁ : Machine}

theorem of_eq (h : Answers base c cells count t y m₁) (hx : x m = y m₁)
    (hworld : m₁.world = m.world) : Answers base c cells count t x m := by
  unfold Answers Fills Refuses at h ⊢
  rwa [hx, ← hworld]

theorem map (h : Answers base c cells count t x m) (g : Value → Value) :
    Answers base c cells count t (x >>= fun v => pure (g v)) m := by
  constructor
  · intro f hf
    obtain ⟨v, m', known', hv, hfilling⟩ := h.1 f hf
    exact ⟨g v, m', known', (bind_ok hv).trans rfl, hfilling⟩
  · intro hnone
    obtain ⟨report, m', hreport, hrefuses⟩ := h.2 hnone
    exact ⟨report, m', bind_error hreport, hrefuses⟩

end Answers

theorem decides_kindTest {kind t u : String} (hn : n.shape = kindTest kind)
    (hm : m.store.Offers c.symbols known) (ht : known "type" = some (.text t))
    (hu : known kind = some (.text u)) : ∃ m', m.store.Extends m'.store ∧ m'.world = m.world ∧
      Decides (k + 2) (d + 1) c n m m' (t == u) := by
  have htest : Worth known (k + 2) (kindTest kind) (.number (.ofBool (t == u))) :=
    .same (.name ht (by simp)) (.name hu (by simp))
  obtain ⟨r, m', hr, hnew⟩ := htest.eval hn hm d
  have hnumber : m'.store.payload? (.object r) = some (.number (.ofBool (t == u))) :=
    congrArg some (Payload.shape_eq_number.mp hnew.carries)
  refine ⟨m', hnew.toExtends, hnew.world, decides_of_isTrue hr ?_⟩
  rw [isTrue_number hnumber, Number.isTrue_ofBool]

theorem refuses_refusal (hn : n.shape = refusal) (hbase : base.Extends m.store)
    (hm : m.store.Offers c.symbols known) (herror : known "error" = some (.builtin "error")) :
    Refuses base (eval (k + 5) (d + 1) c n) m := by
  obtain ⟨span, _, rfl, hns⟩ := Node.eq_list hn
  obtain ⟨_, rfl, hcall⟩ := Node.shapes_eq_single hns
  obtain ⟨place, _, _, rfl, hcallee, hargs⟩ := Node.eq_call hcall
  obtain ⟨here, rfl⟩ := Node.eq_access hcallee
  obtain ⟨arg, rfl, harg⟩ := Node.shapes_eq_single hargs
  obtain ⟨m₁, hext₁, hworld₁, hperforms⟩ :=
    eval_call_performs (b := .error) (by decide) hm herror (k + 1) d here place [arg]
  have htext : Worth known (k + 1) (.text default "Type not supported for rand_list")
      (.text "Type not supported for rand_list") := .text
  obtain ⟨r, m₂, hr, hnewr⟩ := htext.eval harg (hm.extend hext₁) d
  obtain ⟨call, m₃, hgiven, heval⟩ :=
    hperforms [r] m₂ (evalAll_single hr) hnewr.toKeepsObjects rfl
  have hext₃ : m.store.Extends m₃.store := hgiven.keeps (hext₁.trans hnewr.toExtends)
    (by simpa using Nat.le_trans hext₁.objectsSize hnewr.isNew)
  have hmessage : (m₃.store.object r).payload = .text "Type not supported for rand_list" := by
    rw [hgiven.payload]
    exact Payload.shape_eq_text.mp hnewr.carries
  let report : Diagnostic := ⟨.runtime, "Type not supported for rand_list", call.callee.start,
    call.callee.stop, some call.context⟩
  have hstop : call.perform .error [r] m₃ = (.error (.error report), m₃) := by
    have htext : call.textArg r "First argument for 'split' must be a string" m₃ =
        (.ok "Type not supported for rand_list", m₃) := by
      rw [BuiltinCall.textArg, bind_ok (object_apply r m₃), hmessage]
      rfl
    rw [BuiltinCall.perform, bind_ok htext]
    rfl
  refine ⟨report, m₃, ?_, rfl, rfl, hbase.trans hext₃,
    hgiven.world.trans (hnewr.world.trans hworld₁)⟩
  rw [eval, evalAll]
  exact bind_error (bind_error (heval.trans (bind_error hstop)))

theorem answers_plainBranch {size : Int} {t : String} (hn : n.shape = plainBranch)
    (h : Filling base c known cells [] m.store) (hknown : Asks known size t) (ht : t ≠ "<int>") :
    Answers base c cells size.toNat t (eval (size.toNat + k + 15) (d + 1) c n) m := by
  obtain ⟨span, test, body, otherwise, rfl, htest, hbody, hotherwise⟩ := Node.eq_branch hn
  obtain ⟨m₁, hext, hworld, hdecides⟩ := decides_kindTest (k := size.toNat + k + 11) (d := d) htest
    h.offers hknown.type hknown.float
  have hfilling := h.extend hext
  have hbranch := hdecides.branch body true [] (some (otherwise, true))
  rw [eval]
  by_cases hfloat : t = "<float>"
  · rw [beq_iff_eq.mpr hfloat, if_pos rfl] at hbranch
    refine .of_eq (.map ⟨fun f hf => ?_, fun hnone => ?_⟩ _) hbranch hworld
    · have hid : f = id := by
        simpa [scale?, ht, hfloat, eq_comm] using hf
      rw [hid]
      exact eval_drawBlock hbody (fun _ => drawsOnce_plainRound) hfilling hknown.size
    · simp [scale?, hfloat] at hnone
  · rw [beq_eq_false_iff_ne.mpr hfloat, if_neg (by simp), evalCases] at hbranch
    refine .of_eq (.map ⟨fun f hf => ?_, fun _ => ?_⟩ _) hbranch hworld
    · simp [scale?, ht, hfloat] at hf
    · exact refuses_refusal hotherwise hfilling.keeps hfilling.offers hknown.error

theorem answers_kindBranch {size : Int} {t : String} (hn : n.shape = kindBranch)
    (h : Filling base c known cells [] m.store) (hknown : Asks known size t) :
    Answers base c cells size.toNat t (eval (size.toNat + k + 18) (d + 1) c n) m := by
  obtain ⟨span, test, body, otherwise, rfl, htest, hbody, hotherwise⟩ := Node.eq_branch hn
  obtain ⟨m₁, hext, hworld, hdecides⟩ := decides_kindTest (k := size.toNat + k + 14) (d := d) htest
    h.offers hknown.type hknown.int
  have hfilling := h.extend hext
  have hbranch := hdecides.branch body true [] (some (otherwise, false))
  rw [eval]
  by_cases hint : t = "<int>"
  · rw [beq_iff_eq.mpr hint, if_pos rfl] at hbranch
    refine .of_eq (.map ⟨fun f hf => ?_, fun hnone => ?_⟩ _) hbranch hworld
    · have hscale : f = (· * 1000000) := by
        simpa [scale?, hint, eq_comm] using hf
      rw [hscale]
      exact eval_drawBlock (k := k + 3) hbody (fun _ => drawsOnce_scaledRound) hfilling hknown.size
    · simp [scale?, hint] at hnone
  · rw [beq_eq_false_iff_ne.mpr hint, if_neg (by simp), evalCases] at hbranch
    exact .of_eq (.map (answers_plainBranch hotherwise hfilling hknown hint) _) hbranch hworld

theorem eval_ret_list {x : String} (hn : n.shape = .ret default (some (.access default x)))
    (hm : m.store.Offers c.symbols known) (hx : known x = some (.list cells)) :
    ∃ r m', eval (k + 2) (d + 1) c n m = (.error (.returned (.object r)), m') ∧
      m.Makes m' r (.list cells) := by
  obtain ⟨r, m', hnew, hret⟩ := eval_ret_known (k := k) (d := d) hn hm hx (by simp)
  have hsomething : m'.store.isSomething (.object r) = true := by
    rw [isSomething, Payload.shape_eq_list.mp hnew.carries]
  rw [hsomething] at hret
  exact ⟨r, m', hret, hnew⟩

theorem eval_randListBody {size : Int} {t : String} (hn : n.shape = randListBody)
    (hbase : base.Extends m.store) (hsymbols : base.tables.size ≤ c.symbols.index)
    (hhidden : base.tables.size ≤ c.hidden.index) (hm : m.store.Offers c.symbols known)
    (hknown : Asks known size t) :
    (∀ f, scale? t = some f → ∃ r m' known' cells,
      eval (size.toNat + k + 21) (d + 1) c n m = (.error (.returned (.object r)), m') ∧
      (m'.store.object r).payload.shape = .list cells ∧
      Filling base c known' cells ((m.world.upcoming size.toNat).map f) m'.store ∧
      m'.world = m.world.drawn size.toNat) ∧
    (scale? t = none → Refuses base (eval (size.toNat + k + 21) (d + 1) c n) m) := by
  obtain ⟨span, _, rfl, hns⟩ := Node.eq_list hn
  obtain ⟨assign, _, rfl, hassign, hns⟩ := Node.shapes_eq_cons hns
  obtain ⟨branch, _, rfl, hbranch, hns⟩ := Node.shapes_eq_cons hns
  obtain ⟨ret, rfl, hret⟩ := Node.shapes_eq_single hns
  obtain ⟨place, _, rfl, hlist⟩ := Node.eq_assign hassign
  obtain ⟨here, _, rfl, hnone⟩ := Node.eq_list hlist
  obtain rfl := Node.shapes_eq_nil hnone
  have hempty : evalAll (size.toNat + k + 17) (d + 1) c [] m = (.ok [], m) := evalAll_nil
  obtain ⟨r, m₁, hr, hext, hworld, hpayload, hlists⟩ := eval_list hempty here
  let m₂ : Machine :=
    ⟨(m₁.store.bind c.symbols "res" (.object r)).bind c.hidden "res" (.object r), m₁.world⟩
  have hassigned : eval (size.toNat + k + 19) (d + 1) c (.assign place "res" (.list here [])) m =
      (.ok (.object r), m₂) := by
    rw [eval, bind_ok hr]
    rfl
  have hfilling :=
    Filling.initial hbase hsymbols hhidden hm hknown.toKnowsRandom hext hpayload hlists
  have hasks : Asks (Function.update known "res" (some (.list ⟨m.store.lists.size⟩))) size t :=
    ⟨⟨hknown.random, hknown.append, hknown.error, hknown.int, hknown.float⟩, hknown.size,
      hknown.type⟩
  obtain ⟨hfills, hrefuses⟩ := answers_kindBranch (k := k) (d := d) (m := m₂) hbranch hfilling hasks
  have hworld₂ : m₂.world = m.world := hworld
  rw [hworld₂] at hfills
  constructor
  · intro f hf
    obtain ⟨v, m₃, known₃, hv, hfilling₃, hworld₃⟩ := hfills f hf
    obtain ⟨q, m₄, hq, hnew⟩ := eval_ret_list (k := size.toNat + k + 15) (d := d) hret
      hfilling₃.offers hfilling₃.knows.res
    refine ⟨q, m₄, known₃, _, ?_, hnew.carries, hfilling₃.extend hnew.toExtends,
      hnew.world.trans hworld₃⟩
    rw [eval]
    exact bind_error (evalAll_tail_error hassigned
      (evalAll_tail_error hv (evalAll_head_error hq)))
  · intro ht
    obtain ⟨report, m₃, hreport, hkind, hdetails, hext₃, hworld₃⟩ := hrefuses ht
    refine ⟨report, m₃, ?_, hkind, hdetails, hext₃, hworld₃.trans hworld₂⟩
    rw [eval]
    exact bind_error (evalAll_tail_error hassigned (evalAll_head_error hreport))

def GivesNext (x : Eval Value) (m : Machine) : Prop :=
  ∃ r m', x m = (.ok (.object r), m') ∧
    (m'.store.object r).payload = .number (.float (m.world.draw m.world.random).1) ∧
    m'.world = m.world.afterDraw

/-- The evaluation gives a list of what `f` makes of each of the next `count` random numbers, and
advances the random numbers so often. Whatever was in the store is still the same. -/
def GivesDrawn (count : Nat) (f : Float → Float) (x : Eval Value) (m : Machine) : Prop :=
  ∃ r m' ys, x m = (.ok (.object r), m') ∧
    m'.store.snapshot (.object r) = .list (ys.map fun y => .number (.float y)) ∧
    ys.length = count ∧ ys = (m.world.upcoming count).map f ∧
    m'.world = m.world.drawn count ∧ m.store.Extends m'.store

theorem eval_randList {x y : Node} {size : Int} {t : String} {j : Nat}
    (hn : n.shape = .call default (.access default "rand_list") [x, y])
    (hm : m.store.Offers c.symbols known) (hknown : KnowsRandList known)
    (hx : Worth known j x (.number (.int size))) (hy : Worth known j y (.text t)) :
    (∀ f, scale? t = some f →
      GivesDrawn size.toNat f (eval (size.toNat + (j + k) + 23) (d + 2) c n) m) ∧
    (scale? t = none → Refuses m.store (eval (size.toNat + (j + k) + 23) (d + 2) c n) m) := by
  obtain ⟨span, _, _, rfl, hcallee, hargs⟩ := Node.eq_call hn
  obtain ⟨place, rfl⟩ := Node.eq_access hcallee
  obtain ⟨first, _, rfl, hfirst, hargs⟩ := Node.shapes_eq_cons hargs
  obtain ⟨second, rfl, hsecond⟩ := Node.shapes_eq_single hargs
  obtain ⟨f, m₁, hnewf, hcontext, heval⟩ := eval_call_known hm hknown.function (by simp)
    (size.toNat + (j + k) + 21) (d + 2) place span [first, second]
  have hm₁ := hm.extend hnewf.toExtends
  obtain ⟨l, m₂, hl, hnewl⟩ := (hx.mono (k := size.toNat + (j + k) + 21) (by omega)).eval hfirst
    hm₁ (d + 1)
  obtain ⟨r, m₃, hr, hnewr⟩ := (hy.mono (k := size.toNat + (j + k) + 20) (by omega)).eval hsecond
    (hm₁.extend hnewl.toExtends) (d + 1)
  have hboth := hnewl.toExtends.trans hnewr.toExtends
  have hrefs : ∀ q ∈ [l, r], m.store.objects.size ≤ q.index ∧ q.index < m₃.store.objects.size := by
    have hl₀ := hnewf.objectsSize.trans hnewl.isNew
    have hr₀ := hnewf.objectsSize.trans (hnewl.objectsSize.trans hnewr.isNew)
    have hl₃ := Nat.lt_of_lt_of_le hnewl.isThere hnewr.objectsSize
    simp [hl₀, hr₀, hl₃, hnewr.isThere]
  have hlength : [l, r].length = ["size", "type"].length := rfl
  obtain ⟨inner, body, m₄, -, hsymbols, hhidden, hbody, hgiven, hm₄, -, hreturns, hstops⟩ :=
    call_evaluates (k := size.toNat + (j + k) + 21) (d := d + 1) (hnewf.keep hboth)
      (by rw [hboth.object f hnewf.isThere, hcontext]) (hm₁.extend hboth) hlength
      (fun q hq => (hrefs q hq).2) rfl
  have hext₃ : m.store.Extends m₃.store := hnewf.toExtends.trans hboth
  have hext₄ : m.store.Extends m₄.store := hgiven.keeps hext₃ fun q hq => (hrefs q hq).1
  have hworld₄ : m₄.world = m.world :=
    hgiven.world.trans (hnewr.world.trans (hnewl.world.trans hnewf.world))
  have hasks : Asks (learn known (["size", "type"].zip
      ([l, r].map fun q => (m₃.store.object q).payload.shape))) size t := by
    refine ⟨⟨hknown.random, hknown.append, hknown.error, hknown.int, hknown.float⟩, ?_, ?_⟩
    · exact congrArg some (hnewl.keep hnewr.toExtends)
    · exact congrArg some hnewr.carries
  obtain ⟨hgives, hrefuses⟩ := eval_randListBody (k := j + k) (d := d) hbody hext₄
    (hsymbols ▸ hext₃.tablesSize) (hhidden ▸ Nat.le_succ_of_le hext₃.tablesSize) hm₄ hasks
  rw [hworld₄] at hgives
  constructor
  · intro g hg
    obtain ⟨q, m₅, known₅, cells, hq, hcells, hfilling, hworld₅⟩ := hgives g hg
    obtain ⟨q', m₆, hq', hnewq⟩ := resultAt_new hcells (by simp) span c
    have hfilling₆ := hfilling.extend hnewq.toExtends
    have hshows := hfilling₆.snapshot (Payload.shape_eq_list.mp hnewq.carries)
    refine ⟨q', m₆, _, ?_, hshows, ?_, rfl, hnewq.world.trans hworld₅, hfilling₆.keeps⟩
    · rw [heval, bind_ok (evalAll_pair hl hr)]
      exact (bind_ok (hreturns _ m₅ hq)).trans hq'
    · rw [List.length_map, World.length_upcoming]
  · intro ht
    obtain ⟨report, m₅, hreport, hkind, hdetails, hext₅, hworld₅⟩ := hrefuses ht
    refine ⟨report, m₅, ?_, hkind, hdetails, hext₅, hworld₅.trans hworld₄⟩
    rw [heval, bind_ok (evalAll_pair hl hr)]
    exact bind_error (hstops report m₅ hreport)

end Eval

/-- What the statements of the library give, and what is known after them. -/
theorem Library.doesAll_mathStatements :
    ∃ ps xs t known, (∀ k, DoesAll (k + 9) Machine.knownNames mathStatements ps known) ∧
      ps.map Payload.leaf? = xs.map some ∧ (Snapshot.list xs).written = .ok t ∧ t ≠ "null" ∧
      KnowsRandList known ∧ known "is_main" = none := by
  refine ⟨_, [.number _, .function _ _ _, .function _ _ _, .function _ _ _, .function _ _ _,
    .function _ _ _, .function _ _ _, .function _ _ _], _, _, fun _ =>
    .cons (.assign .float) (.cons .function (.cons .function (.cons .function (.cons .function
    (.cons .function (.cons .function (.cons .function .nil))))))), rfl, rfl, ?_,
    ⟨⟨rfl, rfl, rfl, rfl, rfl⟩, rfl⟩, rfl⟩
  decide +kernel

theorem Library.loads_math : ∃ known,
    Loads ("\n".intercalate mathLines) Machine.knownNames known ∧ KnowsRandList known ∧
      known "is_main" = none := by
  obtain ⟨ps, xs, t, known, hdoes, hps, hwritten, ht, hknown⟩ := doesAll_mathStatements
  exact ⟨known, .of_statements unified_mathLines exists_mathTree (fun k => hdoes (k + 3)) hps
    hwritten ht, hknown⟩

namespace Machine

open Eval

/-- In a fresh session that has the library of numbers, the library can be imported, and nothing is
drawn then. Wherever names mean what they mean after the import, `random` gives the next random
number, and `rand_list` gives a list of the next ones, of their multiples or an error, by what the
text is. -/
theorem rand_list_draws {w : World}
    (hw : w.HasModule "math.think" ("\n".intercalate mathLines)) (name : String) :
    ∃ v m known, (start w).run ⟨name, "import \"math\""⟩ = (.value v, m) ∧
      m.world = (start w).world ∧
      (∀ other, (mainMachine m).store.Offers (programContext other).symbols known) ∧
      known "int" = some (.text "<int>") ∧ known "float" = some (.text "<float>") ∧
      ∀ (before : Machine) (c : Context), before.store.Offers c.symbols known →
      (∀ (call : Node) (fuel depth : Nat),
        call.shape = .call default (.access default "random") [] → 3 ≤ fuel → 1 ≤ depth →
          GivesNext (eval fuel depth c call) before) ∧
      ∀ (size : Int) (t : String) (j : Nat) (x y call : Node),
        Worth known j x (.number (.int size)) → Worth known j y (.text t) →
        call.shape = .call default (.access default "rand_list") [x, y] →
      ∀ fuel depth, size.toNat + j + 23 ≤ fuel → 2 ≤ depth →
        (t = "<float>" → GivesDrawn size.toNat id (eval fuel depth c call) before) ∧
        (t = "<int>" → GivesDrawn size.toNat (· * 1000000) (eval fuel depth c call) before) ∧
        (t ≠ "<float>" → t ≠ "<int>" →
          Refuses before.store (eval fuel depth c call) before) := by
  obtain ⟨known, hloads, hknown, hmain⟩ := loads_math
  have hline : Source.HasWords "import \"math\"" [.keyword .importKw, .text "math"] :=
    Source.hasWords_of_lexemes (by decide +kernel) (by decide) (by decide)
  obtain ⟨v, m, hrun, hm, hworld⟩ :=
    run_import hw hloads (offers_names w) rfl hline (by decide) name
  refine ⟨v, m, known, hrun, hworld, fun _ => offers_mainMachine hm hmain, hknown.int, hknown.float,
    ?_⟩
  intro before c hbefore
  constructor
  · intro call fuel depth hcall hfuel hdepth
    obtain ⟨k, rfl⟩ := Nat.exists_eq_add_of_le' hfuel
    obtain ⟨d, rfl⟩ := Nat.exists_eq_add_of_le' hdepth
    obtain ⟨r, m', hr, hnew, hworld'⟩ := eval_drawCall (k := k) (d := d) hcall hbefore hknown.random
    exact ⟨r, m', hr, Payload.shape_eq_number.mp hnew.carries, hworld'⟩
  · intro size t j x y call hx hy hcall fuel depth hfuel hdepth
    obtain ⟨k, rfl⟩ : ∃ k, fuel = size.toNat + (j + k) + 23 :=
      ⟨fuel - (size.toNat + j + 23), by omega⟩
    obtain ⟨d, rfl⟩ := Nat.exists_eq_add_of_le' hdepth
    obtain ⟨hgives, hrefuses⟩ := eval_randList (k := k) (d := d) hcall hbefore hknown hx hy
    refine ⟨fun ht => ?_, fun ht => ?_, fun hfloat hint => ?_⟩
    · exact hgives id (by simp [scale?, ht])
    · exact hgives _ (by simp [scale?, ht])
    · exact hrefuses (by simp [scale?, hfloat, hint])

/-- Two floats, less than no integers, and a kind that is not known. -/
theorem rand_list_draws_two :
    let w := World.start (Library.install ⟨"/home", []⟩)
    let call (n : Node) (kind : Node) : Node :=
      .call default (.access default "rand_list") [n, kind]
    ∃ v m, w.HasModule "math.think" ("\n".intercalate mathLines) ∧
      (start w).run ⟨"<stdin>", "import \"math\""⟩ = (.value v, m) ∧
      (∃ r m', eval 26 2 (programContext "<stdin>")
          (call (.number default (.int 2)) (.access default "float")) (mainMachine m) =
            (.ok (.object r), m') ∧
        m'.store.snapshot (.object r) = .list [.number (.float 0.5138700781390071),
          .number (.float 0.1757413032464683)] ∧ m'.world.random = 377401575) ∧
      (∃ r m', eval 26 2 (programContext "<stdin>")
          (call (.unary default .minus (.number default (.int 2))) (.access default "int"))
            (mainMachine m) = (.ok (.object r), m') ∧
        m'.store.snapshot (.object r) = .list [] ∧ m'.world.random = 1) ∧
      ∃ report m', eval 26 2 (programContext "<stdin>")
          (call (.number default (.int 2)) (.text default "int")) (mainMachine m) =
            (.error (.error report), m') ∧
        report.details = "Type not supported for rand_list" ∧ m'.world.random = 1 := by
  intro w call
  have hw : w.HasModule "math.think" ("\n".intercalate mathLines) :=
    ⟨by decide +kernel, by decide +kernel, by decide +kernel⟩
  obtain ⟨v, m, known, hrun, hworld, hoffers, hint, hfloat, hcalls⟩ := rand_list_draws hw "<stdin>"
  have hbefore : (mainMachine m).world = (start w).world := hworld
  have hcalls := (hcalls (mainMachine m) (programContext "<stdin>") (hoffers "<stdin>")).2
  refine ⟨v, m, hw, hrun, ?_, ?_, ?_⟩
  · obtain ⟨r, m', ys, hr, hshows, -, hys, hdrawn, -⟩ := (hcalls 2 "<float>" 1 _ _
      (call (.number default (.int 2)) (.access default "float")) .int (.name hfloat (by simp)) rfl
      26 2 (by decide) (by decide)).1 rfl
    have hdraws : ((start w).world.upcoming 2).map id =
        [0.5138700781390071, 0.1757413032464683] := by decide +kernel
    have hstate : ((start w).world.drawn 2).random = 377401575 := by decide +kernel
    rw [hbefore] at hys hdrawn
    rw [hys.trans hdraws] at hshows
    exact ⟨r, m', hr, hshows, by rw [hdrawn]; exact hstate⟩
  · obtain ⟨r, m', ys, hr, hshows, -, hys, hdrawn, -⟩ := (hcalls (-2) "<int>" 2 _ _
      (call (.unary default .minus (.number default (.int 2))) (.access default "int"))
      (.minus .int) (.name hint (by simp)) rfl 26 2 (by decide) (by decide)).2.1 rfl
    rw [hbefore] at hdrawn
    have hlist : ys = [] := hys
    rw [hlist] at hshows
    exact ⟨r, m', hr, hshows, by rw [hdrawn]; rfl⟩
  · obtain ⟨report, m', hreport, -, hdetails, -, hsame⟩ := (hcalls 2 "int" 1 _ _
      (call (.number default (.int 2)) (.text default "int")) .int .text rfl 26 2 (by decide)
      (by decide)).2.2 (by decide) (by decide)
    exact ⟨report, m', hreport, hdetails, by rw [hsame, hbefore]; rfl⟩

end Machine

end Think
