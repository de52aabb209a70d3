import Think.Session

/-! # Steps of an evaluation

How evaluations that end in a value or stop are put together, how a whole program runs, and what
allocating and placing objects leaves as it was.
-/

namespace Think

namespace Eval

variable {α β : Type} {x : Eval α} {k : α → Eval β} {m m' : Machine} {a : α} {e : Stop}
  {v : Value} {r : ObjectRef}

theorem bind_ok (h : x m = (.ok a, m')) : (x >>= k) m = k a m' := by
  change ExceptT.bindCont k (x m).1 (x m).2 = _
  rw [h]
  rfl

theorem bind_error (h : x m = (.error e, m')) : (x >>= k) m = (.error e, m') := by
  change ExceptT.bindCont k (x m).1 (x m).2 = _
  rw [h]
  rfl

theorem bind_eq_ok {b : β} {r : Machine} (h : (x >>= k) m = (.ok b, r)) :
    ∃ a m', x m = (.ok a, m') ∧ k a m' = (.ok b, r) := by
  rcases hm : x m with ⟨e | a, m'⟩
  · rw [bind_error hm] at h
    cases h
  · rw [bind_ok hm] at h
    exact ⟨a, m', rfl, h⟩

theorem bind_eq_error {r : Machine} (h : (x >>= k) m = (.error e, r)) :
    x m = (.error e, r) ∨ ∃ a m', x m = (.ok a, m') ∧ k a m' = (.error e, r) := by
  rcases hm : x m with ⟨e' | a, m'⟩
  · rw [bind_error hm] at h
    cases h
    exact .inl rfl
  · rw [bind_ok hm] at h
    exact .inr ⟨a, m', rfl, h⟩

@[simp]
theorem fault_bind (f : Fault) (k : α → Eval β) : (fault f >>= k) = fault f := rfl

theorem outcome_apply (x : Eval α) (m : Machine) : outcome x m = (.ok (x m).1, (x m).2) := rfl

theorem objectOf_bind (r : ObjectRef) (k : ObjectRef × Object → Eval β) :
    (objectOf (.object r) >>= k) = object r >>= fun o => k (r, o) := rfl

theorem object_apply (r : ObjectRef) (m : Machine) : object r m = (.ok (m.store.object r), m) := rfl

theorem copy_plain (h : (m.store.object r).payload = .plain) :
    copy r m = (.error (.fault (.stated "No copy method defined")), m) := by
  refine (bind_ok (object_apply r m)).trans ?_
  rw [h]
  rfl

theorem copy_eq (h : (m.store.object r).payload ≠ .plain) :
    copy r m =
      (.ok ⟨m.store.objects.size⟩, ⟨(m.store.allocate (m.store.object r)).2, m.world⟩) := by
  refine (bind_ok (object_apply r m)).trans ?_
  cases hp : (m.store.object r).payload with
  | plain => contradiction
  | _ => rfl

theorem treeOf_ok {source : Source} {tokens : List Token} {tree : Node}
    (htokens : source.tokens = .ok tokens) (htree : Node.ofTokens tokens = .ok tree) :
    treeOf source m = (.ok (.ok tree), m) := by
  rw [treeOf, htokens]
  dsimp only
  rw [htree]
  rfl

/-- A text is read to a tree, or its tokens or its statements are reported. -/
theorem treeOf_cases {source : Source} {x : Except Diagnostic Node}
    (h : treeOf source m = (.ok x, m')) :
    m' = m ∧ ((∃ d, source.tokens = .error (.reported d) ∧ x = .error d) ∨
      ∃ tokens, source.tokens = .ok tokens ∧
        ((∃ d, Node.ofTokens tokens = .error (.invalid d) ∧ x = .error d) ∨
          ∃ tree, Node.ofTokens tokens = .ok tree ∧ x = .ok tree)) := by
  rw [treeOf] at h
  rcases htokens : source.tokens with (d | f) | tokens
  · rw [htokens] at h
    cases h
    exact ⟨rfl, .inl ⟨d, rfl, rfl⟩⟩
  · rw [htokens] at h
    cases h
  · rw [htokens] at h
    dsimp only at h
    rcases htree : Node.ofTokens tokens with (d | _) | tree
    · rw [htree] at h
      cases h
      exact ⟨rfl, .inr ⟨tokens, rfl, .inl ⟨d, htree, rfl⟩⟩⟩
    · rw [htree] at h
      cases h
    · rw [htree] at h
      cases h
      exact ⟨rfl, .inr ⟨tokens, rfl, .inr ⟨tree, htree, rfl⟩⟩⟩

theorem settle_eq {x : Eval Value} {t : String} (hx : x m = (.ok v, m'))
    (hwritten : (m'.store.snapshot v).written = .ok t) :
    settle x m = (.ok (.ok (if t == "null" then .bare "" else v)), m') := by
  have hw : written v m' = (.ok t, m') := by
    change lift (m'.store.snapshot v).written m' = _
    rw [hwritten]
    rfl
  let shown : Value := if t == "null" then .bare "" else v
  have hboth : (x >>= programValue) m = (.ok shown, m') :=
    (bind_ok hx).trans ((bind_ok hw).trans rfl)
  have hout : outcome (x >>= programValue) m = (.ok (.ok shown), m') := by
    rw [outcome_apply, hboth]
  exact (bind_ok hout).trans rfl

/-- A program whose value is not written as nothing shows that value. -/
theorem settle_ok {x : Eval Value} {t : String} (hx : x m = (.ok v, m'))
    (hwritten : (m'.store.snapshot v).written = .ok t) (ht : t ≠ "null") :
    settle x m = (.ok (.ok v), m') := by
  rw [settle_eq hx hwritten, if_neg (by simpa using ht)]

theorem settle_error {x : Eval Value} {d : Diagnostic} (h : x m = (.error (.error d), m')) :
    settle x m = (.ok (.error d), m') := by
  have hout : outcome (x >>= programValue) m = (.ok (.error (.error d)), m') := by
    rw [outcome_apply, bind_error h]
  exact (bind_ok hout).trans rfl

/-- The machine on which a program starts: it knows that it is the main one. -/
def mainMachine (m : Machine) : Machine where
  store := (m.store.allocate (.fresh (.number (.int 1)))).2.bind programNames "is_main"
    (.object ⟨m.store.objects.size⟩)
  world := m.world

def programContext (name : String) : Context := ⟨s!"<{name}>", none, none, globals, programNames⟩

theorem runText_succ {source : Source} {tree : Node} (h : treeOf source m = (.ok (.ok tree), m))
    (fuel depth : Nat) :
    runText (fuel + 1) (depth + 1) source m =
      settle (eval fuel depth (programContext source.name) tree) (mainMachine m) := by
  rw [runText]
  exact bind_ok h

end Eval

/-- Running a text that has a tree is evaluating the tree, with the fuel that the text is due. -/
theorem Machine.run_eq {m m' : Machine} {source : Source} {tree : Node}
    {r : Except Stop (Except Diagnostic Value)} (h : Eval.treeOf source m = (.ok (.ok tree), m))
    (hr : Eval.settle (Eval.eval (Eval.maxFuel + source.text.length - 1) (Eval.maxDepth - 1)
      (Eval.programContext source.name) tree) (Eval.mainMachine m) = (r, m')) :
    m.run source = (endingOf r, m') := by
  have hfuel : Eval.maxFuel + source.text.length =
      Eval.maxFuel + source.text.length - 1 + 1 := by
    have hpos : 0 < Eval.maxFuel := by decide
    omega
  have hrun : Eval.runText (Eval.maxFuel + source.text.length) Eval.maxDepth source m =
      (r, m') := by
    rw [hfuel, ← hr]
    exact Eval.runText_succ h _ (Eval.maxDepth - 1)
  rw [run, hrun]

namespace Store

variable {s s' s'' : Store} {r : ObjectRef} {o : Object}

theorem index_lt (h : (s.object r).payload ≠ .plain) : r.index < s.objects.size := by
  refine Nat.lt_of_not_le fun hge => h ?_
  rw [object, Array.getElem?_eq_none hge]
  rfl

theorem object_push (s : Store) (o : Object) : (s.allocate o).2.object ⟨s.objects.size⟩ = o := by
  simp [allocate, object]

theorem object_allocate (s : Store) (o : Object) (r : ObjectRef) :
    (s.allocate o).2.object r = if r.index = s.objects.size then o else s.object r := by
  by_cases hr : r.index = s.objects.size
  · simp [allocate, object, hr]
  · simp [allocate, object, Array.getElem?_push, hr]

theorem object_update {f : Object → Object} (hr : r.index < s.objects.size) :
    (s.update r f).object r = f (s.object r) := by
  simp [update, object, Array.getElem_modify, hr]

theorem object_update_eq (s : Store) (r q : ObjectRef) (f : Object → Object) :
    (s.update r f).object q =
      if r = q ∧ q.index < s.objects.size then f (s.object q) else s.object q := by
  obtain ⟨i⟩ := r
  obtain ⟨j⟩ := q
  by_cases hj : j < s.objects.size
  · by_cases hi : i = j
    · simp [update, object, Array.getElem_modify, hi, hj]
    · simp [update, object, Array.getElem?_modify, hi]
  · simp [update, object, hj]

/-- An object that is changed right after it was made might have been made so. -/
theorem update_allocate (s : Store) (o : Object) (f : Object → Object) :
    (s.allocate o).2.update (s.allocate o).1 f = (s.allocate (f o)).2 := by
  have hpush : (s.objects.push o).modify s.objects.size f = s.objects.push (f o) := by
    apply Array.ext
    · simp
    · intro i _ hi
      rw [Array.getElem_modify]
      by_cases h : s.objects.size = i
      · subst h
        simp
      · rw [if_neg h, Array.getElem_push_lt (by simp at hi; omega), Array.getElem_push_lt]
  simp only [allocate, update, hpush]

structure Grows (s s' : Store) : Prop where
  lists : s'.lists = s.lists
  tables : s'.tables = s.tables
  size : s.objects.size ≤ s'.objects.size
  objects : ∀ r : ObjectRef, r.index < s.objects.size → s'.object r = s.object r

namespace Grows

theorem trans (h : s.Grows s') (h' : s'.Grows s'') : s.Grows s'' where
  lists := h'.lists.trans h.lists
  tables := h'.tables.trans h.tables
  size := Nat.le_trans h.size h'.size
  objects r hr := (h'.objects r (Nat.lt_of_lt_of_le hr h.size)).trans (h.objects r hr)

theorem allocate (s : Store) (o : Object) : s.Grows (s.allocate o).2 where
  lists := rfl
  tables := rfl
  size := by simp [Store.allocate]
  objects r hr := by
    have hne : r.index ≠ s.objects.size := Nat.ne_of_lt hr
    simp [Store.allocate, object, Array.getElem?_push, hne]

theorem update (h : s.Grows s') (hr : s.objects.size ≤ r.index) (f : Object → Object) :
    s.Grows (s'.update r f) where
  lists := h.lists
  tables := h.tables
  size := by simpa [Store.update] using h.size
  objects q hq := by
    have hne : r.index ≠ q.index := by omega
    rw [← h.objects q hq]
    simp [Store.update, object, Array.getElem?_modify, hne]

end Grows

end Store

namespace Eval

variable {r : ObjectRef} {m : Machine}

theorem copyTo_eq (span : Span) (context : Context)
    (h : (m.store.object r).payload ≠ .plain) :
    copyTo r span context m =
      allocate (((m.store.object r).placed span).within (some context)) m := by
  have hcopy : copyTo r span context m =
      (.ok (m.store.allocate (m.store.object r)).1,
        ⟨((m.store.allocate (m.store.object r)).2.update (m.store.allocate (m.store.object r)).1
          (·.placed span)).update (m.store.allocate (m.store.object r)).1
          (·.within (some context)), m.world⟩) := bind_ok (copy_eq h)
  have hplaced := Store.update_allocate m.store ((m.store.object r).placed span)
    (·.within (some context))
  rw [hcopy, Store.update_allocate]
  exact congrArg
    (fun s => (Except.ok (m.store.allocate (m.store.object r)).1, Machine.mk s m.world))
    hplaced

theorem calleeAt_eq (span : Span)
    (h : (m.store.object r).payload ≠ .plain) :
    calleeAt span (.object r) m = allocate ((m.store.object r).placed span) m := by
  have hcallee : calleeAt span (.object r) m =
      (.ok (m.store.allocate (m.store.object r)).1,
        ⟨(m.store.allocate (m.store.object r)).2.update (m.store.allocate (m.store.object r)).1
          (·.placed span), m.world⟩) := bind_ok (copy_eq h)
  rw [hcallee, Store.update_allocate]
  rfl

end Eval

end Think
