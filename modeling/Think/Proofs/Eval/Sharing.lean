import Think.Proofs.Eval.Operators
import Think.Proofs.Eval.Sound

/-! # Operators on lists

What `+`, `-` and `*` do to a list. The result is a new object, but it shares the storage of the
left operand, and this is where the elements are put. So the left operand and every other list
that shares its storage change with it, and nothing else does.
-/

namespace Think

namespace Store

def contents (s : Store) (cells : ListRef) : List Value := (s.elements cells).toList

end Store

namespace Operator

/-- The operators of lists, with the right operands that they admit. -/
inductive OnLists (s : Store) : BinaryOp → Value → Prop
  | add (v : Value) : OnLists s .add v
  | sub {r : ObjectRef} {n : Number} (hr : (s.object r).payload = .number n) :
    OnLists s .sub (.object r)
  | mul {r : ObjectRef} {others : ListRef} (hr : (s.object r).payload = .list others) :
    OnLists s .mul (.object r)

/-- The elements that an operator makes of a list: with one more at the end, without the one at a
place, or with all of another list at the end. -/
def edited? (s : Store) (cells : ListRef) : BinaryOp → Value → Option (List Value)
  | .add, v => some (s.contents cells ++ [v])
  | .sub, .object r =>
    match (s.object r).payload with
    | .number (.int i) =>
      let size : Int := (s.contents cells).length
      if -size ≤ i ∧ i < size then some ((s.contents cells).eraseIdx (i % size).toNat) else none
    | _ => none
  | .mul, .object r =>
    match (s.object r).payload with
    | .list others => some (s.contents cells ++ s.contents others)
    | _ => none
  | _, _ => none

end Operator

/-- The storage `cells` holds `vs`, and all else that was there before is still the same. -/
structure Machine.Refills (cells : ListRef) (vs : List Value) (m m' : Machine) : Prop where
  here : m'.store.contents cells = vs
  elsewhere : ∀ c, c ≠ cells → m'.store.elements c = m.store.elements c
  objects : ∀ r : ObjectRef, r.index < m.store.objects.size →
    m'.store.object r = m.store.object r
  tables : m'.store.tables = m.store.tables
  world : m'.world = m.world

/-- How an operator ends on a list with the storage `cells`, if it makes `after?` of the
elements. -/
inductive Eval.EndsOnList (m : Machine) (cells : ListRef) :
    (after? : Option (List Value)) → Except Stop Value × Machine → Prop
  /-- A new list shares the storage. -/
  | gives {vs : List Value} {o : ObjectRef} {m' : Machine} (h : m.Refills cells vs m')
    (hnew : m.store.objects.size ≤ o.index) (ho : (m'.store.object o).payload = .list cells) :
    EndsOnList m cells (some vs) (.ok (.object o), m')
  | reports {d : Diagnostic} {m' : Machine} (h : m.Refills cells (m.store.contents cells) m')
    (hd : d.kind = .runtime) : EndsOnList m cells none (.error (.error d), m')

section

open Eval

variable {t : Store} {m m' : Machine} {l r : ObjectRef} {cells others : ListRef} {span : Span}
  {v : Value} {op : BinaryOp}

namespace Store.Grows

theorem refills (h : m.store.Grows t) :
    m.Refills cells (m.store.contents cells) ⟨t, m.world⟩ where
  here := by rw [contents, contents, elements, elements, h.lists]
  elsewhere c _ := by rw [elements, elements, h.lists]
  objects := h.objects
  tables := h.tables
  world := rfl

theorem refills_updateList (h : m.store.Grows t) (hcells : cells.index < m.store.lists.size)
    (f : Array Value → Array Value) :
    m.Refills cells (f (m.store.elements cells)).toList ⟨t.updateList cells f, m.world⟩ := by
  have helements (c : ListRef) : t.elements c = m.store.elements c := by
    rw [elements, elements, h.lists]
  refine ⟨?_, fun c hc => ?_, h.objects, h.tables, rfl⟩
  · rw [contents, elements_updateList, if_pos ⟨rfl, h.lists ▸ hcells⟩, helements]
  · rw [elements_updateList, if_neg fun hsame => hc hsame.1.symm, helements]

end Store.Grows

theorem Machine.Refills.elements_eq_iff {vs : List Value} (h : m.Refills cells vs m') :
    (∀ c, m'.store.elements c = m.store.elements c) ↔ vs = m.store.contents cells := by
  rw [← h.here]
  constructor
  · intro hsame
    rw [Store.contents, Store.contents, hsame]
  · intro hsame c
    by_cases hc : c = cells
    · rw [hc]
      exact Array.toList_inj.mp hsame
    · exact h.elsewhere c hc

/-- A copy of a list is put at its place, and the storage that it shares is changed. -/
theorem Eval.endsOnList_copy (span : Span) (hl : (m.store.object l).payload = .list cells)
    (hcells : cells.index < m.store.lists.size) (f : Array Value → Array Value) :
    EndsOnList m cells (some (f (m.store.elements cells)).toList)
      (placed span (.value (.object ⟨m.store.objects.size⟩))
        ⟨(m.store.allocate (m.store.object l)).2.updateList cells f, m.world⟩) := by
  have hgrows := (Store.Grows.allocate m.store (m.store.object l)).update
    (r := ⟨m.store.objects.size⟩) (Nat.le_refl _) (·.placed span)
  have hcopy : (((m.store.allocate (m.store.object l)).2.update ⟨m.store.objects.size⟩
      (·.placed span)).object ⟨m.store.objects.size⟩).payload = .list cells := by
    rw [Store.payload_update, Store.object_push, hl]
    exact fun _ => rfl
  exact .gives (hgrows.refills_updateList hcells f) (Nat.le_refl _) hcopy

namespace Operator

/-- An index counts from the start or, if it is negative, from the end. -/
theorem index?_eq (size : Nat) (i : Int) :
    index? size i = if -size ≤ i ∧ i < size then some (i % size).toNat else none := by
  unfold index?
  by_cases hi : 0 ≤ i
  · rw [if_pos hi]
    by_cases hsize : i < size
    · rw [if_pos hsize, if_pos ⟨by omega, hsize⟩, Int.emod_eq_of_lt hi hsize]
    · rw [if_neg hsize, if_neg fun h => hsize h.2]
  · rw [if_neg hi]
    by_cases hsize : -i ≤ size
    · have hmod : i % (size : Int) = i + size := by
        rw [← Int.add_emod_right, Int.emod_eq_of_lt (by omega) (by omega)]
      rw [if_pos hsize, if_pos ⟨by omega, by omega⟩, hmod]
      congr 1
      omega
    · rw [if_neg hsize, if_neg fun h => hsize (by omega)]

theorem binary_list (hl : (m.store.object l).payload = .list cells) :
    Eval.binary op span (.object l) v m = (onList op l cells v >>= placed span) m := by
  change (Operator.binary op l v >>= placed span) m = _
  rw [Operator.binary, bind_assoc, bind_ok (object_apply l m), hl]

theorem onList_add (hl : (m.store.object l).payload = .list cells) :
    onList .add l cells v m = (.ok (.value (.object ⟨m.store.objects.size⟩)),
      ⟨(m.store.allocate (m.store.object l)).2.updateList cells (·.push v), m.world⟩) := by
  obtain ⟨p?, hp⟩ : ∃ p?, payload? v m = (.ok p?, m) := by cases v <;> exact ⟨_, rfl⟩
  rw [onList, bind_ok hp]
  exact bind_ok (copy_eq (by simp [hl]))

theorem onList_mul (hl : (m.store.object l).payload = .list cells)
    (hr : (m.store.object r).payload = .list others) :
    onList .mul l cells (.object r) m = (.ok (.value (.object ⟨m.store.objects.size⟩)),
      ⟨(m.store.allocate (m.store.object l)).2.updateList cells (· ++ m.store.elements others),
        m.world⟩) := by
  rw [onList, bind_ok (payload?_apply r m), hr]
  exact bind_ok (copy_eq (by simp [hl]))

theorem onList_remove {i : Int} {k : Nat} (hl : (m.store.object l).payload = .list cells)
    (hr : (m.store.object r).payload = .number (.int i))
    (hi : index? (m.store.elements cells).size i = some k)
    (hk : k < (m.store.elements cells).size) :
    onList .sub l cells (.object r) m = (.ok (.value (.object ⟨m.store.objects.size⟩)),
      ⟨(m.store.allocate (m.store.object l)).2.updateList cells (removeAt · k), m.world⟩) := by
  let m₁ : Machine := ⟨(m.store.allocate (m.store.object l)).2, m.world⟩
  have htake : takeElement cells (.int i) m₁ = (.ok (m.store.elements cells)[k]?,
      ⟨m₁.store.updateList cells (removeAt · k), m.world⟩) := by
    refine (bind_ok (show elements cells m₁ = (.ok (m.store.elements cells), m₁) from rfl)).trans ?_
    dsimp only
    rw [hi]
    rfl
  rw [onList, bind_ok (payload?_apply r m), hr]
  refine (bind_ok (copy_eq (by simp [hl]))).trans ((bind_ok htake).trans ?_)
  rw [Array.getElem?_eq_getElem hk]
  rfl

theorem lt_of_index? {size k : Nat} {i : Int} (h : index? size i = some k) : k < size := by
  rw [index?_eq] at h
  split at h
  · next hi =>
    cases h
    have hlt := Int.emod_lt_of_pos i (show (0 : Int) < size by omega)
    omega
  · cases h

theorem endsOnList_outside {n : Number} (hl : (m.store.object l).payload = .list cells)
    (hr : (m.store.object r).payload = .number n)
    (hn : ∀ i, n = .int i → index? (m.store.elements cells).size i = none) :
    EndsOnList m cells none ((onList .sub l cells (.object r) >>= placed span) m) := by
  let m₁ : Machine := ⟨(m.store.allocate (m.store.object l)).2, m.world⟩
  have htake : takeElement cells n m₁ = (.ok none, m₁) := by
    refine (bind_ok (show elements cells m₁ = (.ok (m.store.elements cells), m₁) from rfl)).trans ?_
    cases n with
    | int i =>
      dsimp only
      rw [hn i rfl]
      rfl
    | _ => rfl
  obtain ⟨d, hd, hreport⟩ : ∃ d : Diagnostic, d.kind = .runtime ∧
      onList .sub l cells (.object r) m = (.error (.error d), m₁) := by
    rw [onList, bind_ok (payload?_apply r m), hr]
    exact ⟨_, rfl, (bind_ok (copy_eq (by simp [hl]))).trans (bind_ok htake)⟩
  rw [bind_error hreport]
  exact .reports (Store.Grows.allocate m.store _).refills hd

/-- The operators on lists do what `edited?` says, in the storage of the left operand. -/
theorem endsOnList_onList (span : Span) (hop : OnLists m.store op v)
    (hl : (m.store.object l).payload = .list cells) (hcells : cells.index < m.store.lists.size) :
    EndsOnList m cells (edited? m.store cells op v) ((onList op l cells v >>= placed span) m) := by
  cases hop with
  | add v =>
    have hends := endsOnList_copy span hl hcells (·.push v)
    rw [bind_ok (onList_add hl)]
    rwa [Array.toList_push] at hends
  | @mul r others hr =>
    have hends := endsOnList_copy span hl hcells (· ++ m.store.elements others)
    rw [bind_ok (onList_mul hl hr), edited?, hr]
    rwa [Array.toList_append] at hends
  | @sub r n hr =>
    cases n with
    | int i =>
      have hedited : edited? m.store cells .sub (.object r) =
          (index? (m.store.elements cells).size i).map (m.store.contents cells).eraseIdx := by
        rw [index?_eq, apply_ite (Option.map _), edited?, hr]
        rfl
      rw [hedited]
      cases hi : index? (m.store.elements cells).size i with
      | some k =>
        rw [bind_ok (onList_remove hl hr hi (lt_of_index? hi))]
        exact endsOnList_copy span hl hcells (removeAt · k)
      | none =>
        apply endsOnList_outside hl hr
        rintro _ ⟨⟩
        exact hi
    | _ =>
      rw [edited?, hr]
      exact endsOnList_outside hl hr (by simp)

/-- Adding an element or taking one out always changes the elements. -/
theorem edited?_ne (hop : OnLists m.store op v) (hne : op ≠ .mul) :
    edited? m.store cells op v ≠ some (m.store.contents cells) := by
  intro h
  cases hop with
  | add v => simp [edited?] at h
  | mul => exact hne rfl
  | @sub r n hr =>
    cases n with
    | int i =>
      simp only [edited?, hr] at h
      split at h
      · next hi =>
        have hlength := congrArg List.length (Option.some_inj.mp h)
        have hlt := Int.emod_lt_of_pos i (show (0 : Int) < (m.store.contents cells).length by omega)
        rw [List.length_eraseIdx, if_pos (by omega)] at hlength
        omega
      · cases h
    | _ => simp [edited?, hr] at h

end Operator

namespace Eval

/-- An operator leaves all lists alone just if it reports an error or adds nothing. -/
theorem EndsOnList.elements_eq_iff {after? : Option (List Value)} {e : Except Stop Value × Machine}
    (h : EndsOnList m cells after? e) : (∀ c, e.2.store.elements c = m.store.elements c) ↔
      after? = none ∨ after? = some (m.store.contents cells) := by
  cases h with
  | gives h => simpa using h.elements_eq_iff
  | reports h => exact iff_of_true (h.elements_eq_iff.mpr rfl) (.inl rfl)

end Eval

theorem SoundAt.list_lt {ρ : Pairing} {c : Context} (h : SoundAt ρ c m)
    (hr : Value.Alike ρ (.object r) (.object r))
    (hcells : (m.store.object r).payload = .list cells) :
    cells.index < m.store.lists.size := by
  cases hr with
  | object hr =>
    have halike := (h.alike.store.objects hr).2.2.payload
    rw [hcells] at halike
    cases halike with
    | list hc => exact (h.alike.store.lists hc).1

end

namespace Eval

/-- An operator on a list, in a session, gives a list that shares its storage. There the elements
are changed. -/
theorem eval_list_operator {fuel depth : Nat} {context : Context} {span : Span} {op : BinaryOp}
    {left right : Node} {m m₁ m₂ : Machine} {l : ObjectRef} {v : Value} {cells : ListRef}
    (h : Event.Occurs (.part (.inside depth context
      ⟨.node (.binary span op left right), fuel + 1, m⟩)))
    (hleft : eval fuel depth context left m = (.ok (.object l), m₁))
    (hright : eval fuel depth context right m₁ = (.ok v, m₂))
    (hl : (m₂.store.object l).payload = .list cells) (hop : Operator.OnLists m₂.store op v) :
    EndsOnList m₂ cells (Operator.edited? m₂.store cells op v)
      (eval (fuel + 1) depth context (.binary span op left right) m) ∧
    ((∀ c, (eval (fuel + 1) depth context (.binary span op left right) m).2.store.elements c =
        m₂.store.elements c) ↔
      Operator.edited? m₂.store cells op v = none ∨
      op = .mul ∧ Operator.edited? m₂.store cells op v = some (m₂.store.contents cells)) := by
  obtain ⟨ρ, hsound, -⟩ := h.sound
  obtain ⟨ρ₁, -, hsound₁, hl₁⟩ := hsound.eval_ok hleft
  obtain ⟨ρ₂, hsub, hsound₂, -⟩ := hsound₁.eval_ok hright
  have hcells := hsound₂.list_lt (hl₁.mono hsub) hl
  have hends := Operator.endsOnList_onList span hop hl hcells
  rw [← Operator.binary_list hl] at hends
  rw [eval, bind_ok hleft, bind_ok hright]
  refine ⟨hends, hends.elements_eq_iff.trans (or_congr_right ?_)⟩
  constructor
  · intro hsame
    refine ⟨?_, hsame⟩
    by_contra hne
    exact Operator.edited?_ne hop hne hsame
  · exact And.right

def listPlusTwo : Source := ⟨"<stdin>", "[1] + 2"⟩

/-- The left operand has the new element, too. -/
theorem eval_list_operator_add : ∃ span left right m m₁ m₂ l v o m',
    Event.Occurs (.part (.inside 9 (programContext "<stdin>")
      ⟨.node (.binary span .add left right), 5, m⟩)) ∧
    eval 4 9 (programContext "<stdin>") left m = (.ok (.object l), m₁) ∧
    eval 4 9 (programContext "<stdin>") right m₁ = (.ok v, m₂) ∧
    eval 5 9 (programContext "<stdin>") (.binary span .add left right) m = (.ok (.object o), m') ∧
    (m'.store.object l).payload = .list ⟨0⟩ ∧ (m₂.store.contents ⟨0⟩).length = 1 ∧
    m'.store.contents ⟨0⟩ = m₂.store.contents ⟨0⟩ ++ [v] := by
  let w : World := .start ⟨"/home", []⟩
  have htree : treeOf listPlusTwo (Machine.start w) = (.ok (.ok _), Machine.start w) :=
    treeOf_ok rfl rfl
  obtain ⟨span, span₁, span₂, span₃, hoccurs⟩ : ∃ span span₁ span₂ span₃,
      Event.Occurs (.part (.inside 9 (programContext "<stdin>") ⟨.node (.binary span .add
        (.list span₁ [.number span₂ (.int 1)]) (.number span₃ (.int 2))), 5,
        mainMachine (Machine.start w)⟩)) :=
    ⟨_, _, _, _, .leads (.leads (.leads (.text (.start w) 8 10 listPlusTwo) (.program htree))
      (.part (.enters .list))) (.part (.enters .first))⟩
  obtain ⟨l, m₁, hleft, hlist, hlength, hl⟩ : ∃ l m₁, eval 4 9 (programContext "<stdin>")
      (.list span₁ [.number span₂ (.int 1)]) (mainMachine (Machine.start w)) =
        (.ok (.object l), m₁) ∧ (m₁.store.object l).payload = .list ⟨0⟩ ∧
      (m₁.store.contents ⟨0⟩).length = 1 ∧ l.index < m₁.store.objects.size := by
    rw [eval, evalAll, eval, evalAll]
    exact ⟨_, _, rfl, congrArg Object.payload (Store.object_push _ _), rfl,
      Nat.lt_of_lt_of_eq (Nat.lt_succ_self _) (Array.size_push _).symm⟩
  have hright : eval 4 9 (programContext "<stdin>") (.number span₃ (.int 2)) m₁ =
      allocateAt (.number (.int 2)) span₃ (programContext "<stdin>") m₁ := by
    rw [eval]
    rfl
  have hgrows := Store.Grows.allocate m₁.store (((Object.fresh (.number (.int 2))).within
    (some (programContext "<stdin>"))).placed span₃)
  have hlist₂ := (congrArg Object.payload (hgrows.objects l hl)).trans hlist
  obtain ⟨hends, -⟩ := eval_list_operator hoccurs hleft hright hlist₂ (.add _)
  rcases hresult : eval 5 9 (programContext "<stdin>") (.binary span .add
    (.list span₁ [.number span₂ (.int 1)]) (.number span₃ (.int 2)))
    (mainMachine (Machine.start w)) with ⟨e, m'⟩
  rw [hresult] at hends
  cases hends with
  | @gives _ o _ h =>
    have hkept := congrArg Object.payload (h.objects l (Nat.lt_of_lt_of_le hl hgrows.size))
    exact ⟨span, _, _, _, m₁, _, l, _, o, m', hoccurs, hleft, hright, hresult,
      hkept.trans hlist₂, hlength, h.here⟩

end Eval

end Think
