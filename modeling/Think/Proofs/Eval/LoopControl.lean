import Think.Proofs.Eval.Contents
import Think.Proofs.Eval.Origin
import Think.Proofs.Program.Join

/-! # Signals for loops

`break` and `continue` are signals that the innermost loop around them takes. A call does not hold
them up. But in a program that has each signal in its place, in a loop of the same function or
outside of functions, no call stops with one.
-/

namespace Think

open Relation (ReflTransGen)

namespace Eval

/-- What becomes of a loop when a round sends it a signal: it ends with what it has, or goes on. -/
def afterSignal {α : Type} (e : Stop) (ended next : α) : α :=
  match e with
  | .broke => ended
  | _ => next

section

variable {fuel depth : Nat} {context : Context} {e : Stop} {v : Value} {b : Node}
  {done : List Value} {m m₁ m' : Machine}

/-- What a counted loop does after a round that has sent it a signal. -/
theorem repeatFor_signal {name : String} {i by_ next : Number} {up : Bool} {last : Value}
    (he : e.ForLoop) (hr : startRound context name i by_ up last m = (.ok (some next), m₁))
    (hb : eval fuel depth context b m₁ = (.error e, m')) :
    repeatFor (fuel + 1) depth context name i by_ up last b done m =
      afterSignal e (.ok done.reverse, m')
        (repeatFor fuel depth context name next by_ up last b done m') := by
  rw [repeatFor]
  refine (bind_ok hr).trans ?_
  dsimp only
  rw [bind_ok (outcome_apply _ _), hb]
  cases e with
  | continued | broke => rfl
  | _ => exact he.elim

theorem repeatWhile_signal {c : Node} {m₂ : Machine} (he : e.ForLoop)
    (hc : eval fuel depth context c m = (.ok v, m₁)) (ht : isTrue v m₁ = (.ok true, m₂))
    (hb : eval fuel depth context b m₂ = (.error e, m')) :
    repeatWhile (fuel + 1) depth context c b done m =
      afterSignal e (.ok done.reverse, m') (repeatWhile fuel depth context c b done m') := by
  rw [repeatWhile]
  refine (bind_ok hc).trans ((bind_ok ht).trans ?_)
  rw [if_pos rfl, bind_ok (outcome_apply _ _), hb]
  cases e with
  | continued | broke => rfl
  | _ => exact he.elim

end

/-- The activity gets to a statement that sends a signal, on a way on which no loop takes it. -/
def Activity.Sends (a : Activity) (e : Stop) (m : Machine) : Prop :=
  ∃ depth context fuel n,
    ReflTransGen (Passes e) a (.inside depth context ⟨.node n, fuel + 1, m⟩) ∧ n.signal? = some e

theorem Activity.stopsWith_signal_iff {a : Activity} {e : Stop} {m : Machine} (he : e.ForLoop) :
    a.StopsWith e m ↔ a.Sends e m := by
  have hfault (f : Fault) : e ≠ .fault f := by
    rintro rfl
    exact he
  rw [stopsWith_iff hfault]
  constructor
  · rintro ⟨b, hab, hb⟩
    obtain ⟨depth, context, fuel, n, rfl, hn⟩ := (raises_signal_iff he).mp hb
    exact ⟨depth, context, fuel, n, hab, hn⟩
  · rintro ⟨depth, context, fuel, n, hab, hn⟩
    exact ⟨_, hab, (raises_signal_iff he).mpr ⟨depth, context, fuel, n, rfl, hn⟩⟩

/-- A call is no barrier for signals. It stops with one exactly if its function gets to a statement
that sends it, outside of all loops of its own. Then the loop around the call takes the signal as if
it stood in its own body. -/
theorem call_signal (fuel depth : Nat) (r : ObjectRef) (args : List Value) (m : Machine) (e : Stop)
    (he : e.ForLoop) (m' : Machine) :
    (call fuel depth r args m = (.error e, m') ↔
      (Activity.call fuel depth r args m).Sends e m') ∧
    (call fuel depth r args m = (.error e, m') →
      ∀ (fuel₀ depth₀ : Nat) (context : Context) (body : Node) (done : List Value)
        (m₀ m₁ : Machine),
        ReflTransGen (Activity.Passes e) (.inside depth₀ context ⟨.node body, fuel₀, m₁⟩)
          (.call fuel depth r args m) →
        (∀ name i by_ up last next,
          startRound context name i by_ up last m₀ = (.ok (some next), m₁) →
          repeatFor (fuel₀ + 1) depth₀ context name i by_ up last body done m₀ =
            afterSignal e (.ok done.reverse, m')
              (repeatFor fuel₀ depth₀ context name next by_ up last body done m')) ∧
        (∀ c v m₂, eval fuel₀ depth₀ context c m₀ = (.ok v, m₂) →
          isTrue v m₂ = (.ok true, m₁) →
          repeatWhile (fuel₀ + 1) depth₀ context c body done m₀ =
            afterSignal e (.ok done.reverse, m')
              (repeatWhile fuel₀ depth₀ context c body done m'))) := by
  have hiff := Activity.stopsWith_signal_iff (a := .call fuel depth r args m) (m := m') he
  refine ⟨hiff, fun hcall fuel₀ depth₀ context body done m₀ m₁ hbody => ?_⟩
  have hstop : eval fuel₀ depth₀ context body m₁ = (.error e, m') := by
    change (Activity.inside depth₀ context ⟨.node body, fuel₀, m₁⟩).StopsWith e m'
    obtain ⟨d, c, k, n, hsends, hn⟩ := hiff.mp hcall
    exact (Activity.stopsWith_signal_iff he).mpr ⟨d, c, k, n, hbody.trans hsends, hn⟩
  constructor
  · intro name i by_ up last next hr
    exact repeatFor_signal he hr hstop
  · intro c v m₂ hc ht
    exact repeatWhile_signal he hc ht hstop

def functionMachine (body : Node) : Machine :=
  let f : Object := .fresh (.function "f" [] body false)
  ⟨⟨#[.fresh .null, f.within (some (programContext ""))], #[],
    #[⟨[("f", .object ⟨1⟩)], []⟩, ⟨[], []⟩]⟩, .start ⟨"/home", []⟩⟩

/-- The loop `while 1 do f() end` ends in its first round if the body of `f` is a `break`. -/
theorem call_signal_break :
    ∃ r m m', call 7 5 r [] m = (.error .broke, m') ∧
      repeatWhile 9 5 (programContext "") (.number default (.int 1))
        (.call default (.access default "f") []) [] (functionMachine (.breakLoop default)) =
          (.ok [], m') := by
  let one : Node := .number default (.int 1)
  let f : Node := .access default "f"
  obtain ⟨v, m₁, hcondition, htrue, u, m₂, hf, r, m₃, hr, hargs, K, m', hp, hentry⟩ : ∃ v m₁,
      eval 8 5 (programContext "") one (functionMachine (.breakLoop default)) = (.ok v, m₁) ∧
      isTrue v m₁ = (.ok true, m₁) ∧
      ∃ u m₂, eval 7 5 (programContext "") f m₁ = (.ok u, m₂) ∧
      ∃ r m₃, calleeAt default u m₂ = (.ok r, m₃) ∧
      evalAll 7 5 (programContext "") [] m₃ = (.ok [], m₃) ∧
      ∃ K m', (m₃.store.object r).payload = .function "f" [] (.breakLoop default) false ∧
        enterFunction r (m₃.store.object r) "f" [] [] m₃ = (.ok K, m') :=
    ⟨_, _, by rw [eval]; rfl, rfl, _, _, by rw [eval]; rfl, _, _, rfl, by rw [evalAll]; rfl,
      _, _, rfl, rfl⟩
  have hsends : (Activity.call 7 5 r [] m₃).Sends .broke m' :=
    ⟨4, K, 5, .breakLoop default, .single (.body hp hentry (by simp)), rfl⟩
  obtain ⟨hiff, hloop⟩ := call_signal 7 5 r [] m₃ .broke trivial m'
  have hcall := hiff.mpr hsends
  refine ⟨r, m₃, m', hcall, ?_⟩
  exact (hloop hcall 8 5 (programContext "") (.call default f []) [] _ m₁
    (.single (.call hf hr hargs))).2 one v m₁ hcondition htrue

end Eval

mutual

/-- Every `break` and `continue` is in a loop, and every `return` in a function. The tree itself may
be in the body of a loop or of a function. -/
def Node.orderly (inLoop inFunction : Bool) : Node → Bool
  | .number _ _ | .text _ _ | .access _ _ | .importFile _ _ => true
  | .continueLoop _ | .breakLoop _ => inLoop
  | .ret _ v => inFunction && Node.orderlyOption inLoop inFunction v
  | .think _ v => Node.orderlyOption inLoop inFunction v
  | .list _ ns => Node.orderlyAll inLoop inFunction ns
  | .assign _ _ v => v.orderly inLoop inFunction
  | .binary _ _ l r => l.orderly inLoop inFunction && r.orderly inLoop inFunction
  | .unary _ _ a => a.orderly inLoop inFunction
  | .branch _ cs f =>
    Node.orderlyCases inLoop inFunction cs && Node.orderlyBlock inLoop inFunction f
  | .forLoop _ _ x y z b _ =>
    x.orderly inLoop inFunction && y.orderly inLoop inFunction &&
      Node.orderlyOption inLoop inFunction z && b.orderly true inFunction
  | .whileLoop _ c b _ => c.orderly inLoop inFunction && b.orderly true inFunction
  | .function _ _ _ body _ => body.orderly false true
  | .call _ c args => c.orderly inLoop inFunction && Node.orderlyAll inLoop inFunction args

def Node.orderlyAll (inLoop inFunction : Bool) : List Node → Bool
  | [] => true
  | n :: ns => n.orderly inLoop inFunction && Node.orderlyAll inLoop inFunction ns

def Node.orderlyOption (inLoop inFunction : Bool) : Option Node → Bool
  | none => true
  | some n => n.orderly inLoop inFunction

def Node.orderlyBlock (inLoop inFunction : Bool) : Option (Node × Bool) → Bool
  | none => true
  | some (n, _) => n.orderly inLoop inFunction

def Node.orderlyCases (inLoop inFunction : Bool) : List (Node × Node × Bool) → Bool
  | [] => true
  | (c, b, _) :: cs => c.orderly inLoop inFunction && b.orderly inLoop inFunction &&
    Node.orderlyCases inLoop inFunction cs

end

theorem Node.orderly_of_mem {l f : Bool} {n : Node} {ns : List Node}
    (h : Node.orderlyAll l f ns = true) (hn : n ∈ ns) : n.orderly l f = true := by
  induction hn with
  | head =>
    rw [Node.orderlyAll, Bool.and_eq_true] at h
    exact h.1
  | tail _ _ ih =>
    rw [Node.orderlyAll, Bool.and_eq_true] at h
    exact ih h.2

def Node.OrderlyBody (body : Node) : Prop := body.orderly false true = true

open Eval (Makes)

mutual

/-- The functions in a tree with its signals in their places have theirs there too. -/
theorem Node.orderly_bodies (l f : Bool) : ∀ n : Node, n.orderly l f = true →
    Makes OrderlyBody n.bodies
  | .number _ _, _ | .text _ _, _ | .access _ _, _ | .importFile _ _, _ | .continueLoop _, _
  | .breakLoop _, _ => by
    rw [Node.bodies]
    exact List.forall_mem_nil _
  | .ret _ v, h => by
    rw [Node.orderly, Bool.and_eq_true] at h
    rw [Node.bodies]
    exact orderlyOption_bodies l f v h.2
  | .think _ v, h => by
    rw [Node.orderly] at h
    rw [Node.bodies]
    exact orderlyOption_bodies l f v h
  | .list _ ns, h => by
    rw [Node.orderly] at h
    rw [Node.bodies]
    exact orderlyAll_bodies l f ns h
  | .assign _ _ v, h => by
    rw [Node.orderly] at h
    rw [Node.bodies]
    exact orderly_bodies l f v h
  | .binary _ _ x y, h => by
    rw [Node.orderly, Bool.and_eq_true] at h
    rw [Node.bodies]
    exact (orderly_bodies l f x h.1).append (orderly_bodies l f y h.2)
  | .unary _ _ x, h => by
    rw [Node.orderly] at h
    rw [Node.bodies]
    exact orderly_bodies l f x h
  | .branch _ cs b, h => by
    rw [Node.orderly, Bool.and_eq_true] at h
    rw [Node.bodies]
    exact (orderlyCases_bodies l f cs h.1).append (orderlyBlock_bodies l f b h.2)
  | .forLoop _ _ x y z b _, h => by
    simp only [Node.orderly, Bool.and_eq_true] at h
    obtain ⟨⟨⟨hx, hy⟩, hz⟩, hb⟩ := h
    rw [Node.bodies]
    have hheader := (orderly_bodies l f x hx).append (orderly_bodies l f y hy)
    exact (hheader.append (orderlyOption_bodies l f z hz)).append (orderly_bodies true f b hb)
  | .whileLoop _ c b _, h => by
    rw [Node.orderly, Bool.and_eq_true] at h
    rw [Node.bodies]
    exact (orderly_bodies l f c h.1).append (orderly_bodies true f b h.2)
  | .function _ _ _ body _, h => by
    rw [Node.orderly] at h
    rw [Node.bodies]
    exact List.forall_mem_singleton.mpr h
  | .call _ c args, h => by
    rw [Node.orderly, Bool.and_eq_true] at h
    rw [Node.bodies]
    exact (orderly_bodies l f c h.1).append (orderlyAll_bodies l f args h.2)

theorem Node.orderlyAll_bodies (l f : Bool) : ∀ ns : List Node, Node.orderlyAll l f ns = true →
    Makes OrderlyBody (Node.bodiesAll ns)
  | [], _ => by
    rw [Node.bodiesAll]
    exact List.forall_mem_nil _
  | n :: ns, h => by
    rw [Node.orderlyAll, Bool.and_eq_true] at h
    rw [Node.bodiesAll]
    exact (orderly_bodies l f n h.1).append (orderlyAll_bodies l f ns h.2)

theorem Node.orderlyOption_bodies (l f : Bool) : ∀ n : Option Node,
    Node.orderlyOption l f n = true → Makes OrderlyBody (Node.bodiesOption n)
  | none, _ => by
    rw [Node.bodiesOption]
    exact List.forall_mem_nil _
  | some n, h => by
    rw [Node.orderlyOption] at h
    rw [Node.bodiesOption]
    exact orderly_bodies l f n h

theorem Node.orderlyBlock_bodies (l f : Bool) : ∀ b : Option (Node × Bool),
    Node.orderlyBlock l f b = true → Makes OrderlyBody (Node.bodiesBlock b)
  | none, _ => by
    rw [Node.bodiesBlock]
    exact List.forall_mem_nil _
  | some (n, _), h => by
    rw [Node.orderlyBlock] at h
    rw [Node.bodiesBlock]
    exact orderly_bodies l f n h

theorem Node.orderlyCases_bodies (l f : Bool) : ∀ cs : List (Node × Node × Bool),
    Node.orderlyCases l f cs = true → Makes OrderlyBody (Node.bodiesCases cs)
  | [], _ => by
    rw [Node.bodiesCases]
    exact List.forall_mem_nil _
  | (c, b, _) :: cs, h => by
    simp only [Node.orderlyCases, Bool.and_eq_true] at h
    rw [Node.bodiesCases]
    have hfirst := (orderly_bodies l f c h.1.1).append (orderly_bodies l f b h.1.2)
    exact hfirst.append (orderlyCases_bodies l f cs h.2)

end

theorem Node.orderlyBody_bodies (b : Node) (h : b.OrderlyBody) : Makes OrderlyBody b.bodies :=
  orderly_bodies false true b h

namespace Eval

/-- The signals of a task are in their places. What is left of a loop has its body in the loop. -/
def Task.orderly (l f : Bool) : Task → Bool
  | .node n => n.orderly l f
  | .all ns => Node.orderlyAll l f ns
  | .cases cs fallback => Node.orderlyCases l f cs && Node.orderlyBlock l f fallback
  | .forRounds _ _ _ _ _ body _ => body.orderly true f
  | .whileRounds condition body _ => condition.orderly l f && body.orderly true f

section

variable {depth : Nat} {context : Context} {e : Stop} {p q : Point} {l f : Bool}

/-- What a point enters is as much in a loop as the point, or it is the body of a loop. -/
theorem Enters.orderly (h : Enters depth context p q) (hp : p.task.orderly l f = true) :
    q.task.orderly l f = true ∨
      q.task.orderly true f = true ∧ p.task.IsRounds ∧ ¬ q.task.IsRounds := by
  cases h
  case forBody | whileBody =>
    simp only [Task.orderly, Bool.and_eq_true] at hp
    refine .inr ⟨?_, trivial, id⟩
    first | exact hp | exact hp.2
  case returned =>
    simp only [Task.orderly, Node.orderly, Node.orderlyOption, Bool.and_eq_true] at hp
    exact .inl hp.2
  all_goals
    simp_all [Task.orderly, Node.orderly, Node.orderlyAll, Node.orderlyOption, Node.orderlyBlock,
      Node.orderlyCases]

/-- What a signal for a loop gets through is as much in a loop as what it comes from. -/
theorem Passes.orderly (h : Passes e depth context p q) (he : e.ForLoop)
    (hp : p.task.orderly l f = true) : q.task.orderly l f = true := by
  cases h with
  | enters h hbody =>
    rcases h.orderly hp with hq | ⟨-, hrounds, hnode⟩
    · exact hq
    · exact absurd (hbody he hrounds) hnode
  | condition =>
    simp only [Task.orderly, Bool.and_eq_true] at hp
    exact hp.1

theorem Reaches.orderly (h : Reaches depth context p q) (hp : p.task.orderly l f = true) :
    ∃ l', q.task.orderly l' f = true := by
  induction h with
  | refl => exact ⟨l, hp⟩
  | tail _ h ih =>
    obtain ⟨l', hl'⟩ := ih
    rcases h.orderly hl' with hq | ⟨hq, -⟩
    · exact ⟨l', hq⟩
    · exact ⟨true, hq⟩

theorem not_returned_of_orderly {v : Value} {m : Machine} (hp : p.task.orderly l false = true) :
    ¬ p.StopsWith depth context (.returned v) m := by
  rw [stopsWith_returned_iff]
  rintro ⟨-, ⟨task, k, m₀⟩, hreach, span, value, fuel, rfl, rfl, -⟩
  obtain ⟨l', hret⟩ := hreach.orderly hp
  simp [Task.orderly, Node.orderly] at hret

end

namespace Activity

variable {a b : Activity} {e : Stop} {m : Machine}

def Outside : Activity → Prop
  | .inside _ _ p => ∃ f, p.task.orderly false f = true
  | .call _ _ _ _ _ => True

theorem Outside.passes (h : a.Outside) (ha : a.Fits Node.OrderlyBody) (he : e.ForLoop)
    (hp : Passes e a b) : b.Outside := by
  cases hp with
  | inside hp =>
    obtain ⟨f, hf⟩ := h
    exact ⟨f, hp.orderly he hf⟩
  | call => trivial
  | body hp _ _ => exact ⟨true, (ha.1.object _).body hp⟩

theorem not_signal_of_outside (hquiet : a.Quiet) (hfits : a.Fits Node.OrderlyBody) (h : a.Outside)
    (he : e.ForLoop) : ¬ a.StopsWith e m := by
  rw [stopsWith_signal_iff he]
  rintro ⟨depth, context, fuel, n, hpasses, hn⟩
  have houtside {b : Activity} (hb : ReflTransGen (Passes e) a b) : b.Outside := by
    induction hb with
    | refl => exact h
    | tail hb hp ih =>
      have hleads := ReflTransGen.mono (fun _ _ => Passes.leads) _ _ hb
      exact ih.passes (hfits.reached Node.orderlyBody_bodies hquiet hleads) he hp
  obtain ⟨f, hf⟩ := houtside hpasses
  cases n with
  | continueLoop | breakLoop => cases hf
  | _ => cases hn

end Activity

/-- What goes on when a text with this tree is run. -/
def mainActivity (m : Machine) (source : Source) (tree : Node) : Activity :=
  .inside (maxDepth - 1) (programContext source.name)
    ⟨.node tree, maxFuel + source.text.length - 1, mainMachine m⟩

theorem eval_list_eq_ok {fuel depth : Nat} {context : Context} {span : Span} {items : List Node}
    {v : Value} {m m' : Machine}
    (h : eval fuel depth context (.list span items) m = (.ok v, m')) :
    ∃ r cells, v = .object r ∧ (m'.store.object r).payload = .list cells := by
  cases fuel with
  | zero =>
    rw [eval] at h
    cases h
  | succ fuel =>
    rw [eval] at h
    obtain ⟨vs, m₁, -, h⟩ := bind_eq_ok h
    cases h
    exact ⟨_, _, rfl, congrArg Object.payload (Store.object_push _ _)⟩

end Eval

open Eval

theorem settle_of_run_value {m : Machine} {source : Source} {tree : Node} {v : Value}
    (h : treeOf source m = (.ok (.ok tree), m)) (hv : (m.run source).1 = .value v) :
    settle (eval (maxFuel + source.text.length - 1) (maxDepth - 1)
      (programContext source.name) tree) (mainMachine m) = (.ok (.ok v), (m.run source).2) := by
  rcases hr : settle (eval (maxFuel + source.text.length - 1) (maxDepth - 1)
    (programContext source.name) tree) (mainMachine m) with ⟨r, m'⟩
  rw [Machine.run_eq h hr] at hv ⊢
  rcases r with e | d | u
  · cases e with
    | fault f => cases hv
    | _ => exact ((mute_settle ((disciplined _).eval _ _ _)).stop hr).elim
  · cases hv
  · cases hv
    rfl

/-- In a program on a fresh machine that has its signals in their places and starts no other
program, no signal gets astray. Its statements and all calls stop with failures only, and nothing
outside of a loop ever sends a signal to a loop. -/
theorem Machine.run_orderly (w : World) (source : Source) (tree : Node)
    (htree : source.HasTree tree) (horderly : tree.orderly false false = true)
    (hquiet : (mainActivity (start w) source tree).Quiet) :
    (∀ v, ((start w).run source).1 = .value v →
      v = .bare "" ∨ ∃ r cells, v = .object r ∧
        (((start w).run source).2.store.object r).payload = .list cells) ∧
    (∃ span items, tree = .list span items ∧ ∀ n ∈ items, ∀ depth context fuel m,
      ReflTransGen Activity.Leads (mainActivity (start w) source tree)
        (.inside depth context ⟨.node n, fuel, m⟩) →
      ∀ e m', eval fuel depth context n m = (.error e, m') → e.IsFailure) ∧
    (∀ fuel depth r args m,
      ReflTransGen Activity.Leads (mainActivity (start w) source tree)
        (.call fuel depth r args m) →
      ∀ e m', call fuel depth r args m = (.error e, m') → e.IsFailure) ∧
    (∀ depth context p, ReflTransGen Activity.Leads (mainActivity (start w) source tree)
        (.inside depth context p) →
      ∀ f, p.task.orderly false f = true → ∀ e m', p.StopsWith depth context e m' →
        ¬ e.ForLoop) := by
  let a := mainActivity (start w) source tree
  have hbodies : Makes Node.OrderlyBody tree.bodies := Node.orderly_bodies false false tree horderly
  have hfits : a.Fits Node.OrderlyBody := ⟨fits_mainMachine fits_freshStore, .outermost, hbodies⟩
  have hloop {b : Activity} (hb : ReflTransGen Activity.Leads a b) (ho : b.Outside) {e : Stop}
      {m : Machine} (hstop : b.StopsWith e m) : ¬ e.ForLoop := fun he =>
    Activity.not_signal_of_outside (fun c hc => hquiet c (hb.trans hc))
      (hfits.reached Node.orderlyBody_bodies hquiet hb) ho he hstop
  have hfails {n : Node} {fuel depth : Nat} {context : Context} {m m' : Machine} {e : Stop}
      (hn : n.orderly false false = true)
      (hb : ReflTransGen Activity.Leads a (.inside depth context ⟨.node n, fuel, m⟩))
      (hstop : eval fuel depth context n m = (.error e, m')) : e.IsFailure := by
    apply Stop.isFailure_of_not_signal (hloop hb ⟨false, hn⟩ hstop)
    rintro v rfl
    exact not_returned_of_orderly (p := ⟨.node n, fuel, m⟩) hn hstop
  obtain ⟨span, items, rfl⟩ := htree.eq_list
  refine ⟨?_, ⟨span, items, rfl, ?_⟩, ?_, ?_⟩
  · intro v hv
    obtain ⟨ts, htokens, hparse⟩ := htree
    have hsettle := settle_of_run_value (treeOf_ok htokens hparse) hv
    rcases settle_eq_ok hsettle with ⟨u, hu, rfl | rfl⟩ | ⟨-, e, he, hstop⟩
    · exact .inr (eval_list_eq_ok hu)
    · exact .inl rfl
    · exact absurd (hfails horderly .refl hstop) he
  · intro n hn depth context fuel m hb e m' hstop
    exact hfails (Node.orderly_of_mem horderly hn) hb hstop
  · intro fuel depth r args m hb e m' hstop
    apply Stop.isFailure_of_not_signal (hloop hb trivial hstop)
    exact ((disciplined fuel).call depth r args).stop hstop
  · intro depth context p hb f hf e m' hstop
    exact hloop hb ⟨f, hf⟩ hstop

mutual

def Node.callFree : Node → Bool
  | .number _ _ | .text _ _ | .access _ _ | .continueLoop _ | .breakLoop _ => true
  | .function _ _ _ _ _ => true
  | .importFile _ _ | .think _ _ | .call _ _ _ => false
  | .ret _ v => Node.callFreeOption v
  | .list _ ns => Node.callFreeAll ns
  | .assign _ _ v => v.callFree
  | .binary _ _ l r => l.callFree && r.callFree
  | .unary _ _ a => a.callFree
  | .branch _ cs f => Node.callFreeCases cs && Node.callFreeBlock f
  | .forLoop _ _ x y z b _ => x.callFree && y.callFree && Node.callFreeOption z && b.callFree
  | .whileLoop _ c b _ => c.callFree && b.callFree

def Node.callFreeAll : List Node → Bool
  | [] => true
  | n :: ns => n.callFree && Node.callFreeAll ns

def Node.callFreeOption : Option Node → Bool
  | none => true
  | some n => n.callFree

def Node.callFreeBlock : Option (Node × Bool) → Bool
  | none => true
  | some (n, _) => n.callFree

def Node.callFreeCases : List (Node × Node × Bool) → Bool
  | [] => true
  | (c, b, _) :: cs => c.callFree && b.callFree && Node.callFreeCases cs

end

def Eval.Task.callFree : Task → Bool
  | .node n => n.callFree
  | .all ns => Node.callFreeAll ns
  | .cases cs fallback => Node.callFreeCases cs && Node.callFreeBlock fallback
  | .forRounds _ _ _ _ _ body _ => body.callFree
  | .whileRounds condition body _ => condition.callFree && body.callFree

theorem Eval.Enters.callFree {depth : Nat} {context : Context} {p q : Point}
    (h : Enters depth context p q) (hp : p.task.callFree = true) : q.task.callFree = true := by
  cases h
  all_goals
    simp_all [Task.callFree, Node.callFree, Node.callFreeAll, Node.callFreeOption,
      Node.callFreeBlock, Node.callFreeCases]

theorem Eval.Activity.quiet_of_callFree {depth : Nat} {context : Context} {p : Point}
    (h : p.task.callFree = true) : (Activity.inside depth context p).Quiet := by
  let P : Activity → Prop
    | .inside _ _ p => p.task.callFree = true
    | .call _ _ _ _ _ => False
  have hp : P (.inside depth context p) := h
  apply quiet_of_closed hp
  · intro b c hb hl
    cases hl with
    | enters he => exact he.callFree hb
    | call => cases hb
    | body => exact hb.elim
  · intro b hb hs
    cases hs with
    | importFile | think => cases hb
    | run => exact hb

def Machine.Ending.object? : Ending → Option ObjectRef
  | .value (.object r) => some r
  | _ => none

def nestedLoops : Source := ⟨"<stdin>", "while 1 do\nwhile 1 do\nbreak\nend\nbreak\nend\n7"⟩

/-- The inner `break` leaves the inner loop only, and the program goes on to its end. -/
theorem Machine.run_orderly_nested : ∃ tree, nestedLoops.HasTree tree ∧
    tree.orderly false false = true ∧
    (mainActivity (start (.start ⟨"/home", []⟩)) nestedLoops tree).Quiet ∧
    ∃ r m cells, (start (.start ⟨"/home", []⟩)).run nestedLoops = (.value (.object r), m) ∧
      (m.store.object r).payload = .list cells := by
  have hcheck : ∃ tree, nestedLoops.HasTree tree ∧
      (tree.orderly false false && tree.callFree) := by
    decide +kernel
  obtain ⟨tree, htree, hnested⟩ := hcheck
  rw [Bool.and_eq_true] at hnested
  obtain ⟨horderly, hfree⟩ := hnested
  have hquiet : (mainActivity (start (.start ⟨"/home", []⟩)) nestedLoops tree).Quiet :=
    Activity.quiet_of_callFree hfree
  have hvalue : ((start (.start ⟨"/home", []⟩)).run nestedLoops).1.object?.isSome = true := by
    decide +kernel
  obtain ⟨hlist, -⟩ := run_orderly (.start ⟨"/home", []⟩) nestedLoops tree htree horderly hquiet
  rcases hrun : (start (.start ⟨"/home", []⟩)).run nestedLoops with ⟨ending, m⟩
  rw [hrun] at hvalue hlist
  cases ending with
  | value v =>
    obtain rfl | ⟨r, cells, rfl, hcells⟩ := hlist v rfl
    · cases hvalue
    · exact ⟨tree, htree, horderly, hquiet, r, m, cells, rfl, hcells⟩
  | error | fault => cases hvalue

end Think
