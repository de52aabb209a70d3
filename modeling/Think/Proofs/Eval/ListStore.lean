import Think.Proofs.Eval.Edits
import Think.Proofs.Eval.Hidden
import Think.Proofs.Eval.Shown

/-! # Lists in a session

A list keeps its storage for good, and shows what this holds at the moment. A list literal makes a
new storage; names, parameters and calls hand on the old one. Through a whole session the storages
change by the edits of its events alone.
-/

namespace Think

open Relation (ReflTransGen)

namespace Store

variable {s : Store} {r : ObjectRef} {cells : ListRef}

theorem length_sequences (s : Store) : s.sequences.length = s.lists.size := by
  simp [sequences]

theorem getElem?_sequences (h : cells.index < s.lists.size) :
    s.sequences[cells.index]? = some (s.contents cells) := by
  rw [contents_eq, List.getD_eq_getElem?_getD]
  rw [← length_sequences] at h
  simp [h]

theorem Sound.list_lt (h : s.Sound) (hr : (s.object r).payload = .list cells) :
    cells.index < s.lists.size := by
  obtain ⟨ρ, hfull, halike⟩ := h
  by_cases hlt : r.index < s.objects.size
  · have hpayload := (halike.objects (hfull.objects r hlt)).2.2.payload
    rw [hr] at hpayload
    cases hpayload with
    | list hc => exact (halike.lists hc).1
  · rw [object, Array.getElem?_eq_none (Nat.le_of_not_lt hlt)] at hr
    cases hr

/-- Every list shows the elements of its storage. -/
def ShowsLists (s : Store) : Prop :=
  ∀ r cells, (s.object r).payload = .list cells → ∃ vs, s.sequences[cells.index]? = some vs ∧
    s.snapshot (.object r) =
      .list (vs.map (s.snapshotBelow (s.sequences.length - 1) [cells]))

theorem ShowsLists.alike {q : ObjectRef} (h : s.ShowsLists)
    (hr : (s.object r).payload = .list cells) (hq : (s.object q).payload = .list cells) :
    s.snapshot (.object r) = s.snapshot (.object q) := by
  obtain ⟨vs, hvs, hshown⟩ := h r cells hr
  obtain ⟨ws, hws, hshown'⟩ := h q cells hq
  cases hvs.symm.trans hws
  rw [hshown, hshown']

theorem Sound.showsLists (h : s.Sound) : s.ShowsLists := by
  intro r cells hr
  have hlt := h.list_lt hr
  refine ⟨s.contents cells, getElem?_sequences hlt, ?_⟩
  obtain ⟨n, hn⟩ : ∃ n, s.lists.size = n + 1 := Nat.exists_eq_add_one_of_ne_zero (by omega)
  rw [snapshot, length_sequences, hn, snapshotBelow, hr]
  simp [contents]

end Store

namespace Eval

/-- The evaluation gives a list with the storage `cells`, and the sequences are `seqs` then. -/
def GivesList (cells : ListRef) (seqs : List (List Value)) (ending : Except Stop Value × Machine) :
    Prop :=
  ∃ r m', ending = (.ok (.object r), m') ∧ (m'.store.object r).payload = .list cells ∧
    m'.store.sequences = seqs

section

variable {m m' : Machine} {r : ObjectRef} {cells : ListRef} {span : Span} {context : Context}

/-- A copy holds the same, and a list shares its storage with its copy. -/
theorem copyTo_gives (span : Span) (context : Context) (hr : (m.store.object r).payload ≠ .plain) :
    ∃ q m', (copyTo r span context >>= fun c => pure (Value.object c)) m = (.ok (.object q), m') ∧
      (m'.store.object q).payload = (m.store.object r).payload ∧
      m'.store.sequences = m.store.sequences := by
  refine ⟨⟨m.store.objects.size⟩, _, bind_ok (copyTo_eq span context hr), ?_, rfl⟩
  exact (congrArg Object.payload (Store.object_push _ _)).trans rfl

theorem givesList_listAt (vs : List Value) :
    GivesList ⟨m.store.sequences.length⟩ (m.store.sequences ++ [vs])
      (listAt vs span context m) := by
  refine ⟨⟨m.store.objects.size⟩, _, rfl, ?_, ?_⟩
  · rw [Store.length_sequences]
    exact congrArg Object.payload (Store.object_push _ _)
  · exact Store.sequences_allocateList m.store vs.toArray

theorem givesList_list (span : Span) {fuel depth : Nat} {items : List Node} {vs : List Value}
    (h : evalAll fuel depth context items m = (.ok vs, m')) :
    GivesList ⟨m'.store.sequences.length⟩ (m'.store.sequences ++ [vs])
      (eval (fuel + 1) depth context (.list span items) m) := by
  rw [eval, bind_ok h]
  exact givesList_listAt vs

theorem givesList_access {x : String}
    (hx : m.store.payload? (m.store.meaning context x) = some (.list cells)) :
    GivesList cells m.store.sequences (access context span x m) := by
  rw [access_eq]
  cases hv : m.store.meaning context x with
  | object r =>
    rw [hv] at hx
    have hr : (m.store.object r).payload = .list cells := Option.some.inj hx
    have hplain : (m.store.object r).payload ≠ .plain := by simp [hr]
    obtain ⟨q, m', hq, hsame, hsequences⟩ := copyTo_gives span context hplain
    exact ⟨q, m', hq, hsame.trans hr, hsequences⟩
  | absent | bare =>
    rw [hv] at hx
    cases hx

theorem lookup_of_get {s : Store} {t : TableRef} {x : String}
    (h : (s.table t).get x = .object r) : s.lookup t x = .object r := by
  rw [Store.lookup, Store.search, h]

theorem meaning_of_lookup {s : Store} {c : Context} {x : String}
    (h : s.lookup c.symbols x = .object r) : s.meaning c x = .object r := by
  rw [Store.meaning, h, if_neg (by simp)]

theorem meaning_of_get {s : Store} {c : Context} {x : String}
    (h : (s.table c.symbols).get x = .object r) : s.meaning c x = .object r :=
  meaning_of_lookup (lookup_of_get h)

theorem lookup_bind_of_ne {s : Store} {t u : TableRef} {x y : String} {v : Value} (h : x ≠ y) :
    (s.bind t y v).lookup u x = s.lookup u x := by
  have hget (u : TableRef) : ((s.bind t y v).table u).get x = (s.table u).get x := by
    rw [Store.get_bind, if_neg fun hu => h hu.2]
  have hsearch (us : List TableRef) : (s.bind t y v).search x us = s.search x us := by
    induction us with
    | nil => rfl
    | cons u us ih => rw [Store.search, Store.search, hget, ih]
  have hancestors : ((s.bind t y v).table u).ancestors = (s.table u).ancestors := by
    rw [Store.table_bind]
    split <;> rfl
  rw [Store.lookup, hsearch, hancestors, Store.lookup]

theorem meaning_bind_of_ne {s : Store} {t : TableRef} {x y : String} {v : Value} (h : x ≠ y) :
    (s.bind t y v).meaning context x = s.meaning context x := by
  rw [Store.meaning, lookup_bind_of_ne h, lookup_bind_of_ne h, Store.meaning]

/-- An assignment gives the name the object itself, and leaves all other names alone. -/
theorem eval_assign {fuel depth : Nat} {y : String} {value : Node}
    (hvalue : eval fuel depth context value m = (.ok (.object r), m'))
    (hsymbols : context.symbols.index < m'.store.tables.size) :
    ∃ m'', eval (fuel + 1) depth context (.assign span y value) m = (.ok (.object r), m'') ∧
      m''.store.meaning context y = .object r ∧
      (∀ x, x ≠ y → m''.store.meaning context x = m'.store.meaning context x) ∧
      m'.store.SameValues m''.store := by
  let s := (m'.store.bind context.symbols y (.object r)).bind context.hidden y (.object r)
  have hbound : ((m'.store.bind context.symbols y (.object r)).table context.symbols).get y =
      .object r := by
    rw [Store.get_bind, if_pos ⟨⟨rfl, hsymbols⟩, rfl⟩]
  have hget : (s.table context.symbols).get y = .object r := by
    rw [Store.get_bind, hbound, ite_self]
  refine ⟨⟨s, m'.world⟩, ?_, meaning_of_get hget, fun x hx => ?_, rfl, fun _ => rfl⟩
  · rw [eval, bind_ok hvalue]
    rfl
  · exact (meaning_bind_of_ne hx).trans (meaning_bind_of_ne hx)

def bound (context : Context) (m : Machine) : List (String × ObjectRef) → Machine
  | [] => m
  | (x, r) :: pairs =>
    bound context ⟨(m.store.update r (·.within (some context))).bind context.symbols x (.object r),
      m.world⟩ pairs

theorem bindArgs_eq {params : List String} {refs : List ObjectRef}
    (h : refs.length = params.length) :
    bindArgs context params (refs.map .object) m =
      (.ok refs, bound context m (params.zip refs)) := by
  induction params generalizing refs m with
  | nil =>
    obtain rfl := List.length_eq_zero_iff.mp h
    rfl
  | cons x params ih =>
    rcases refs with _ | ⟨r, refs⟩
    · cases h
    · exact bind_ok (ih (Nat.succ.inj h))

theorem get_bound_of_notMem {x : String} {pairs : List (String × ObjectRef)}
    (hx : x ∉ pairs.map Prod.fst) :
    ((bound context m pairs).store.table context.symbols).get x =
      (m.store.table context.symbols).get x := by
  induction pairs generalizing m with
  | nil => rfl
  | cons pair pairs ih =>
    obtain ⟨y, r⟩ := pair
    rw [List.map_cons, List.mem_cons, not_or] at hx
    rw [bound, ih hx.2, Store.get_bind, if_neg fun h => hx.1 h.2]
    rfl

theorem get_bound {x : String} {pre post : List (String × ObjectRef)}
    (ht : context.symbols.index < m.store.tables.size) (hx : x ∉ post.map Prod.fst) :
    ((bound context m (pre ++ (x, r) :: post)).store.table context.symbols).get x = .object r := by
  induction pre generalizing m with
  | nil =>
    rw [List.nil_append, bound, get_bound_of_notMem hx, Store.get_bind,
      if_pos ⟨⟨rfl, ht⟩, rfl⟩]
  | cons pair pre ih =>
    obtain ⟨y, q⟩ := pair
    exact ih (by simpa [Store.bind, Store.update] using ht)

end

end Eval

open Eval

/-- A call expression that names its function, which is evaluated with its arguments. -/
structure PreparedCall where
  fuel : Nat
  depth : Nat
  site : Context
  span : Span
  callee : Node
  args : List Node
  start : Machine
  called : ObjectRef
  afterCallee : Machine
  function : ObjectRef
  placed : Machine
  refs : List ObjectRef
  afterArgs : Machine
  isDirect : callee.isDirect = true
  evalCallee : eval (fuel + 1) (depth + 1) site callee start = (.ok (.object called), afterCallee)
  calleeAt : Eval.calleeAt span (.object called) afterCallee = (.ok function, placed)
  evalArgs : evalAll (fuel + 1) (depth + 1) site args placed = (.ok (refs.map .object), afterArgs)

namespace Eval

variable {m : Machine} {r : ObjectRef} {callee : Object} {params : List String} {args : List Value}

theorem checkCount_ok (h : args.length = params.length) :
    checkCount r callee params args m = (.ok (), m) := by
  unfold checkCount
  rw [if_neg (by omega), if_neg (by omega)]
  rfl

def contextFrom (m : Machine) (callee : Object) (name : String) (outer : Context) : Context :=
  ⟨name, some outer, callee.start, ⟨m.store.tables.size⟩, ⟨m.store.tables.size + 1⟩⟩

def withTables (m : Machine) (outer : Context) : Machine :=
  ⟨((m.store.childOf outer.symbols).2.childOf outer.hidden).2, m.world⟩

/-- As many objects as parameters are bound to them in the context of the call. -/
theorem enterFunction_objects {outer : Context} {refs : List ObjectRef}
    (hcontext : callee.context = some outer) (name : String)
    (hlength : refs.length = params.length) :
    enterFunction r callee name params (refs.map .object) m =
      (.ok (contextFrom m callee name outer),
        bound (contextFrom m callee name outer) (withTables m outer) (params.zip refs)) := by
  have hopen : callContext callee name m =
      (.ok (contextFrom m callee name outer), withTables m outer) := by
    rw [callContext, hcontext]
    change (Except.ok (Context.mk name (some outer) callee.start ⟨m.store.tables.size⟩
      ⟨(m.store.tables.push _).size⟩), _) = _
    rw [Array.size_push]
    rfl
  rw [enterFunction, bind_ok hopen, bind_ok (checkCount_ok (by simpa using hlength)),
    bind_ok (bindArgs_eq hlength)]
  rfl

theorem checkCount_error {name : String} (callee : Object)
    (hr : (m.store.object r).payload = .builtin name) (h : args.length ≠ params.length) :
    ∃ d : Diagnostic, d.kind = .runtime ∧
      checkCount r callee params args m = (.error (.error d), m) := by
  obtain ⟨t, hwritten⟩ : ∃ t, written (.object r) m = (.ok t, m) := by
    have hsnapshot : snapshot (.object r) m = (.ok (.builtin name), m) := by
      change (Except.ok (m.store.snapshot (.object r)), m) = _
      rw [Store.snapshot, Store.snapshotBelow, hr]
    exact ⟨_, bind_ok hsnapshot⟩
  unfold checkCount
  dsimp only
  by_cases hmany : params.length < args.length
  · rw [if_pos hmany, bind_assoc, bind_ok hwritten]
    exact ⟨_, rfl, rfl⟩
  · rw [if_neg hmany, if_pos (by omega)]
    exact ⟨_, rfl, bind_ok hwritten⟩

end Eval

def Value.object? : Value → Option ObjectRef
  | .object r => some r
  | _ => none

namespace PreparedCall

variable (c : PreparedCall) {name : String} {params : List String} {body : Node} {k : Bool}
  {b : Builtin}

def event : Eval.Event :=
  .inside (c.fuel + 2) (c.depth + 1) c.site c.start (.node (.call c.span c.callee c.args))

def payload : Payload := (c.afterCallee.store.object c.called).payload

def builtin? : Option Builtin :=
  match c.payload with
  | .builtin name => Builtin.ofName? name
  | _ => none

def callEvent : Eval.Event :=
  .part (.call (c.fuel + 1) (c.depth + 1) c.function (c.refs.map .object) c.afterArgs)

def value : Except Stop Value × Machine :=
  call (c.fuel + 1) (c.depth + 1) c.function (c.refs.map .object) c.afterArgs

def result : Except Stop Value × Machine :=
  eval (c.fuel + 2) (c.depth + 1) c.site (.call c.span c.callee c.args) c.start

theorem payload_of_builtin? (h : c.builtin? = some b) :
    ∃ name, c.payload = .builtin name ∧ Builtin.ofName? name = some b := by
  unfold builtin? at h
  split at h
  · next name hp => exact ⟨name, hp, h⟩
  · cases h

theorem result_eq : c.result =
    (call (c.fuel + 1) (c.depth + 1) c.function (c.refs.map .object) >>= resultAt c.span c.site)
      c.afterArgs := by
  rw [result, eval]
  exact (bind_ok c.evalCallee).trans ((bind_ok c.calleeAt).trans (bind_ok c.evalArgs))

theorem leads : Event.Leads c.event c.callEvent :=
  .part (.call c.evalCallee c.calleeAt c.evalArgs)

/-- The function is called in the context of the call expression. -/
theorem object_function (h : Event.Occurs c.event) :
    (c.afterArgs.store.object c.function).payload = c.payload ∧
      (c.afterArgs.store.object c.function).context = some c.site := by
  obtain ⟨ρ, r, hr, -, -, -, hobject⟩ := h.sound.object_callee c.evalCallee c.calleeAt c.evalArgs
  cases hr
  rw [hobject]
  exact ⟨rfl, context_of_isDirect c.isDirect c.evalCallee⟩

theorem exists_callContext (h : Event.Occurs c.event) (name : String) : ∃ inner m,
    callContext (c.afterArgs.store.object c.function) name c.afterArgs = (.ok inner, m) ∧
      c.afterArgs.store.SameValues m.store ∧ inner.symbols.index < m.store.tables.size := by
  have hcontext := (c.object_function h).2
  obtain ⟨inner, m, hopen⟩ : ∃ inner m,
      callContext (c.afterArgs.store.object c.function) name c.afterArgs = (.ok inner, m) := by
    rw [callContext, hcontext]
    exact ⟨_, _, rfl⟩
  obtain ⟨outer, -, rfl, rfl⟩ := callContext_eq_ok hopen
  refine ⟨_, _, hopen, ⟨rfl, fun _ => rfl⟩, ?_⟩
  simp only [Store.childOf, Store.allocateTable, Array.size_push]
  omega

/-- As many arguments as parameters let the call in, and each name means its argument. -/
theorem enterFunction_eq (h : Event.Occurs c.event) (name : String)
    (hcount : c.refs.length = params.length) : ∃ inner entered,
    enterFunction c.function (c.afterArgs.store.object c.function) name params
        (c.refs.map .object) c.afterArgs = (.ok inner, entered) ∧
      ∀ pre x r post, params.zip c.refs = pre ++ (x, r) :: post → x ∉ post.map Prod.fst →
        entered.store.meaning inner x = .object r := by
  obtain ⟨inner, m, hopen, -, hsymbols⟩ := c.exists_callContext h name
  refine ⟨inner, bound inner m (params.zip c.refs), ?_, ?_⟩
  · rw [enterFunction, bind_ok hopen, bind_ok (checkCount_ok (by simpa using hcount)),
      bind_ok (bindArgs_eq hcount)]
    rfl
  · intro pre x r post hzip hx
    rw [hzip]
    exact meaning_of_get (get_bound hsymbols hx)

theorem enterFunction_error (h : Event.Occurs c.event) (hp : c.payload = .builtin name)
    (hcount : c.refs.length ≠ params.length) : ∃ d m, d.kind = .runtime ∧
    enterFunction c.function (c.afterArgs.store.object c.function) name params
        (c.refs.map .object) c.afterArgs = (.error (.error d), m) ∧
      c.afterArgs.store.SameValues m.store := by
  obtain ⟨inner, m, hopen, hsame, -⟩ := c.exists_callContext h name
  have hbuiltin : (m.store.object c.function).payload = .builtin name := by
    rw [hsame.payload, (c.object_function h).1, hp]
  obtain ⟨d, hd, hreport⟩ := checkCount_error (c.afterArgs.store.object c.function) hbuiltin
    (show (c.refs.map Value.object).length ≠ params.length by simpa using hcount)
  refine ⟨d, m, hd, ?_, hsame⟩
  rw [enterFunction, bind_ok hopen, bind_error hreport]

section

variable (h : Event.Occurs c.event) (hp : c.payload = .builtin name)
  (hb : Builtin.ofName? name = some b) (hkind : b.editKind?.isSome)

include h hp hb hkind

theorem ends_value_of_count (hcount : c.refs.length = b.params.length)
    (hlist : b = .append → (Edit.called? c.afterArgs.store b (c.refs.map .object)).isSome) :
    c.callEvent.edit? = Edit.called? c.afterArgs.store b (c.refs.map .object) ∧
      Edit.Ends c.afterArgs.store.sequences
        (Edit.called? c.afterArgs.store b (c.refs.map .object)) c.value := by
  have hbuiltin := (c.object_function h).1.trans hp
  obtain ⟨inner, entered, henter, -⟩ := c.enterFunction_eq h name hcount
  refine ⟨Event.edit?_call hbuiltin hb henter, ?_⟩
  have hsame := Event.sameValues_of_enterFunction henter
  have hrun : b ≠ .run := by
    rintro rfl
    cases hkind
  rcases Event.call_builtin_cases c.fuel c.depth (c.refs.map .object) hbuiltin hb with
    ⟨stop, m', hfails, -⟩ | ⟨context, m', refs, hok, hrefs, hcall⟩
  · cases henter.symm.trans hfails
  · cases henter.symm.trans hok
    have hlength : refs.length = b.params.length := by
      simpa [← hcount] using (congrArg List.length hrefs).symm
    rw [hrefs, ← Edit.called?_congr hsame] at hlist
    rw [value, hcall, Event.performed_eq hrun, hrefs, ← Edit.called?_congr hsame,
      ← Store.sequences_of_lists hsame.lists]
    exact BuiltinCall.ends_perform _ hkind hlength hlist

theorem ends_value_of_miscount (hcount : c.refs.length ≠ b.params.length) :
    Edit.called? c.afterArgs.store b (c.refs.map .object) = none ∧ c.callEvent.edit? = none ∧
      Edit.Ends c.afterArgs.store.sequences none c.value := by
  have hbuiltin := (c.object_function h).1.trans hp
  obtain ⟨d, m', hd, henter, hsame⟩ := c.enterFunction_error h hp hcount
  refine ⟨?_, Event.edit?_call_error hbuiltin hb henter, ?_⟩
  · rw [b.length_params_of_editKind? hkind] at hcount
    exact Edit.called?_of_length _ b (by simpa using hcount)
  · rcases Event.call_builtin_cases c.fuel c.depth (c.refs.map .object) hbuiltin hb with
      ⟨stop, m'', hfails, hcall⟩ | ⟨context, m'', refs, hok, -⟩
    · cases henter.symm.trans hfails
      rw [value, hcall]
      exact .refused hd (Store.sequences_of_lists hsame.lists)
    · cases henter.symm.trans hok

end

/-- A call of a function that is there for an edit, with whatever arguments. -/
theorem ends_value (h : Event.Occurs c.event) (hb : c.builtin? = some b)
    (hkind : b.editKind?.isSome)
    (hlist : b = .append → (Edit.called? c.afterArgs.store b (c.refs.map .object)).isSome) :
    c.callEvent.edit? = Edit.called? c.afterArgs.store b (c.refs.map .object) ∧
      Edit.Ends c.afterArgs.store.sequences
        (Edit.called? c.afterArgs.store b (c.refs.map .object)) c.value := by
  obtain ⟨name, hp, hb⟩ := c.payload_of_builtin? hb
  by_cases hcount : c.refs.length = b.params.length
  · exact c.ends_value_of_count h hp hb hkind hcount hlist
  · obtain ⟨hnone, hedit, hends⟩ := c.ends_value_of_miscount h hp hb hkind hcount
    rw [hnone]
    exact ⟨hedit, hends⟩

/-- The call expression gives a copy of what the function gives. -/
theorem result_of_value {r : ObjectRef} {m : Machine} (hv : c.value = (.ok (.object r), m))
    (hr : (m.store.object r).payload ≠ .plain) : ∃ q m', c.result = (.ok (.object q), m') ∧
      (m'.store.object q).payload = (m.store.object r).payload ∧
      m'.store.sequences = m.store.sequences := by
  rw [result_eq, bind_ok hv]
  exact copyTo_gives c.span c.site hr

theorem result_of_error {stop : Stop} {m : Machine} (hv : c.value = (.error stop, m)) :
    c.result = (.error stop, m) := by
  rw [result_eq, bind_error hv]

/-- A function gives what its body returns, or the value of its body if that is an expression. -/
theorem value_of_body {inner : Context} {entered m : Machine} {r : ObjectRef}
    (h : Event.Occurs c.event) (hp : c.payload = .function name params body k)
    (henter : enterFunction c.function (c.afterArgs.store.object c.function) name params
      (c.refs.map .object) c.afterArgs = (.ok inner, entered))
    (hr : (m.store.object r).payload ≠ .text "")
    (hbody : eval c.fuel c.depth inner body entered = (.error (.returned (.object r)), m) ∨
      k = true ∧ eval c.fuel c.depth inner body entered = (.ok (.object r), m)) :
    c.value = (.ok (.object r), m) := by
  rw [value, call_function ((c.object_function h).1.trans hp), bind_ok henter,
    bind_ok (outcome_apply _ _)]
  rcases hbody with hbody | ⟨rfl, hbody⟩
  · rw [hbody]
    rfl
  · rw [hbody]
    dsimp only
    rw [functionResult_eq, isSomething_object.mpr hr]
    rfl

def ofEvent? : Eval.Event → Option PreparedCall
  | .part (.inside (depth + 1) site ⟨.node (.call span callee args), fuel + 2, start⟩) =>
    if isDirect : callee.isDirect = true then
      match evalCallee : eval (fuel + 1) (depth + 1) site callee start with
      | (.ok (.object called), afterCallee) =>
        match calleeAt : Eval.calleeAt span (.object called) afterCallee with
        | (.ok function, placed) =>
          match hargs : evalAll (fuel + 1) (depth + 1) site args placed with
          | (.ok vs, afterArgs) =>
            if hvs : (vs.filterMap Value.object?).map .object = vs then some
              { fuel, depth, site, span, callee, args, start, called, afterCallee, function, placed,
                refs := vs.filterMap Value.object?, afterArgs, isDirect, evalCallee, calleeAt,
                evalArgs := hvs.symm ▸ hargs }
            else none
          | _ => none
        | _ => none
      | _ => none
    else none
  | _ => none

theorem event_ofEvent? {e : Eval.Event} {c : PreparedCall} (h : ofEvent? e = some c) :
    c.event = e := by
  unfold ofEvent? at h
  repeat' split at h
  all_goals cases h
  rfl

end PreparedCall

namespace Eval

namespace Event

/-- What a session does with lists, where it comes to the event. -/
structure TreatsLists (e : Event) : Prop where
  /-- All lists show the elements of their storages. -/
  shows : e.machine.store.ShowsLists
  /-- Lists that share a storage look the same. -/
  alike : ∀ {r q cells}, (e.machine.store.object r).payload = .list cells →
    (e.machine.store.object q).payload = .list cells →
    e.machine.store.snapshot (.object r) = e.machine.store.snapshot (.object q)
  /-- A list stays with its storage. -/
  stays : ∀ r : ObjectRef, r.index < e.machine.store.objects.size →
    (e.after.store.object r).payload = (e.machine.store.object r).payload
  /-- The storages go through the edits of the event and of all that it comes to. -/
  evolves : e.after.store.sequences = e.edits.foldl Edit.apply e.machine.store.sequences
  /-- A list literal makes a new storage. -/
  literal : ∀ {fuel depth context m span items vs m'},
    e = inside (fuel + 1) depth context m (.node (.list span items)) →
    evalAll fuel depth context items m = (.ok vs, m') →
    e.own = [.create vs] ∧ GivesList ⟨m'.store.sequences.length⟩ (m'.store.sequences ++ [vs])
      (eval (fuel + 1) depth context (.list span items) m)
  /-- A name of a list gives a list that shares the storage. -/
  read : ∀ {fuel depth context m span x cells},
    e = inside (fuel + 1) depth context m (.node (.access span x)) →
    m.store.payload? (m.store.meaning context x) = some (.list cells) →
    GivesList cells m.store.sequences (eval (fuel + 1) depth context (.access span x) m)
  /-- An assignment makes the name mean the object itself, and leaves all other names alone. -/
  assigned : ∀ {fuel depth context m span y value r m'},
    e = inside (fuel + 1) depth context m (.node (.assign span y value)) →
    eval fuel depth context value m = (.ok (.object r), m') →
    ∃ m'', eval (fuel + 1) depth context (.assign span y value) m = (.ok (.object r), m'') ∧
      m''.store.meaning context y = .object r ∧
      (∀ x, x ≠ y → m''.store.meaning context x = m'.store.meaning context x) ∧
      m'.store.SameValues m''.store
  /-- A list that is returned leaves the function as the object itself. -/
  returned : ∀ {fuel depth context m span value r cells m'},
    e = inside (fuel + 1) depth context m (.node (.ret span (some value))) →
    eval fuel depth context value m = (.ok (.object r), m') →
    (m'.store.object r).payload = .list cells →
    eval (fuel + 1) depth context (.ret span (some value)) m =
      (.error (.returned (.object r)), m')
  /-- A parameter means the argument itself, and the call gives what the body gives. -/
  passed : ∀ c : PreparedCall, c.event = e → ∀ {name params body k},
    c.payload = .function name params body k → c.refs.length = params.length →
    ∃ inner entered, enterFunction c.function (c.afterArgs.store.object c.function) name params
        (c.refs.map .object) c.afterArgs = (.ok inner, entered) ∧
      c.afterArgs.store.SameValues entered.store ∧
      (∀ pre x r post, params.zip c.refs = pre ++ (x, r) :: post → x ∉ post.map Prod.fst →
        entered.store.meaning inner x = .object r) ∧
      ∀ r m', (m'.store.object r).payload ≠ .text "" →
        (eval c.fuel c.depth inner body entered = (.error (.returned (.object r)), m') ∨
          k = true ∧ eval c.fuel c.depth inner body entered = (.ok (.object r), m')) →
        c.value = (.ok (.object r), m')
  /-- A call of `append`, `extend` or `pop` makes the edit that is asked for or reports an error. -/
  performed : ∀ c : PreparedCall, c.event = e → ∀ {b}, c.builtin? = some b → b.editKind?.isSome →
    (b = .append → (Edit.called? c.afterArgs.store b (c.refs.map .object)).isSome) →
    c.callEvent.edit? = Edit.called? c.afterArgs.store b (c.refs.map .object) ∧
      Edit.Ends c.afterArgs.store.sequences
        (Edit.called? c.afterArgs.store b (c.refs.map .object)) c.value
  /-- What a call gives is the same as what the function gives, and so is an error. -/
  given : ∀ c : PreparedCall, c.event = e →
    Event.Leads e c.callEvent ∧
      (∀ stop m', c.value = (.error stop, m') → c.result = (.error stop, m')) ∧
      ∀ r m', c.value = (.ok (.object r), m') → (m'.store.object r).payload ≠ .plain →
        ∃ q m'', c.result = (.ok (.object q), m'') ∧
          (m''.store.object q).payload = (m'.store.object r).payload ∧
          m''.store.sequences = m'.store.sequences

/-- All that a list literal does itself is to make the list of its values. -/
theorem own_list {fuel depth : Nat} {context : Context} {m m' : Machine} {span : Span}
    {items : List Node} {vs : List Value}
    (h : evalAll fuel depth context items m = (.ok vs, m')) :
    (inside (fuel + 1) depth context m (.node (.list span items))).own = [.create vs] := by
  have hsettled : (inside (fuel + 1) depth context m (.node (.list span items))).settled = m' :=
    congrArg Prod.snd h
  obtain ⟨r, m'', hlist, -, hnew⟩ := givesList_list span h
  have hafter : (inside (fuel + 1) depth context m (.node (.list span items))).after = m'' :=
    congrArg Prod.snd hlist
  change List.map Edit.create _ = _
  rw [hafter, hsettled, hnew, List.drop_left]
  rfl

theorem Sound.store {e : Event} (h : e.Sound) : e.machine.store.Sound := by
  cases e with
  | text | file => exact h
  | part a =>
    cases a with
    | inside depth context p =>
      obtain ⟨ρ, hsound, -⟩ := h
      exact hsound.sound
    | call fuel depth r args m =>
      obtain ⟨ρ, hfull, halike, -⟩ := h
      exact ⟨ρ, hfull, halike.store⟩

/-- Everywhere in a session, lists are handed on with their storages, which go through the edits. -/
theorem Occurs.treatsLists {e : Event} (h : Occurs e) : e.TreatsLists where
  shows := h.sound.store.showsLists
  alike hr hq := h.sound.store.showsLists.alike hr hq
  stays r hr := Store.payload_of_changes e.changes hr
  evolves := Event.sequences_journal (Nat.lt_succ_self _)
  literal he hitems := by
    subst he
    exact ⟨own_list hitems, givesList_list _ hitems⟩
  read he hx := by
    rw [eval]
    exact givesList_access hx
  assigned he hvalue := by
    subst he
    obtain ⟨ρ, hsound, -⟩ := h.sound
    obtain ⟨ρ', -, hsound', -⟩ := hsound.eval_ok hvalue
    exact eval_assign hvalue hsound'.context.symbols
  returned he hvalue hr := by
    rw [eval_ret, operandValue, bind_ok hvalue]
    exact returnValue_something (isSomething_object.mpr (by simp [hr]))
  passed c he _ _ _ _ hp hcount := by
    subst he
    obtain ⟨inner, entered, henter, hmeaning⟩ := c.enterFunction_eq h _ hcount
    refine ⟨inner, entered, henter, Event.sameValues_of_enterFunction henter, hmeaning, ?_⟩
    exact fun r m' hr hbody => c.value_of_body h hp henter hr hbody
  performed c he _ hb hkind hlist := by
    subst he
    exact c.ends_value h hb hkind hlist
  given c he := by
    subst he
    exact ⟨c.leads, fun _ _ => c.result_of_error, fun _ _ => c.result_of_value⟩

def popsShared : Event :=
  .text 20 9 ⟨"<stdin>", "x = [7, 8]\ny = x\nfunc f(l) -> pop(l, -1)\nf(y)"⟩
    (Machine.start (.start ⟨"/home", []⟩))

def popsLast (c : PreparedCall) : Bool :=
  decide (c.builtin? = some .pop ∧ (c.afterArgs.store.contents ⟨0⟩).length = 2 ∧
    Edit.called? c.afterArgs.store .pop (c.refs.map .object) = some (.pop ⟨0⟩ (-1)))

/-- The second element of the first storage is taken out and given. -/
theorem Occurs.treatsLists_pop : Occurs popsShared ∧ popsShared.TreatsLists ∧
    ∃ c : PreparedCall, ReflTransGen Leads popsShared c.event ∧ c.event.TreatsLists ∧
      ∃ v w m', c.afterArgs.store.contents ⟨0⟩ = [v, w] ∧ c.value = (.ok w, m') ∧
        m'.store.contents ⟨0⟩ = [v] := by
  have hoccurs : Occurs popsShared := .text (.start _) 20 9 _
  have hany : ((reached 21 popsShared).filterMap PreparedCall.ofEvent?).any popsLast = true := by
    decide +kernel
  obtain ⟨c, hc, hlast⟩ := List.any_eq_true.mp hany
  obtain ⟨e, he, hc⟩ := List.mem_filterMap.mp hc
  have hreached := PreparedCall.event_ofEvent? hc ▸ leads_of_mem_reached he
  obtain ⟨hb, htwo, hcalled⟩ := of_decide_eq_true hlast
  have htreats := (hoccurs.reaches hreached).treatsLists
  obtain ⟨v, w, hvw⟩ := List.length_eq_two.mp htwo
  have hends := (htreats.performed c rfl hb rfl (by simp)).2
  rw [hcalled] at hends
  have hfirst := Store.contents_eq c.afterArgs.store ⟨0⟩
  rw [hvw] at hfirst
  rcases hs : c.afterArgs.store.sequences with _ | ⟨vs, seqs⟩
  · rw [hs] at hfirst
    cases hfirst
  · rw [hs] at hfirst hends
    obtain rfl : [v, w] = vs := hfirst
    generalize hvalue : c.value = ending at hends
    cases hends with
    | @made _ _ m' hv hm =>
      cases hv
      refine ⟨hoccurs, hoccurs.treatsLists, c, hreached, htreats, v, w, m', hvw, hvalue, ?_⟩
      rw [Store.contents_eq, hm]
      rfl

end Event

end Eval

end Think
