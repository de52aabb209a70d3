import Think.Proofs.Eval.Invariant
import Think.Proofs.Eval.Scope
import Think.Proofs.Eval.Sharing
import Think.Proofs.Eval.Spares

/-! # Lists as sequences

The storages of lists are sequences of values, and a whole evaluation does to them what a journal of
edits does. The journal of an event is that of all it comes to, one after the other, and its own
edit, if it is a function or an operator that makes one.
-/

namespace Think

open BuiltinCall (nullValue)
open Relation (ReflTransGen)

namespace Store

def sequences (s : Store) : List (List Value) := s.lists.toList.map Array.toList

def payload? (s : Store) : Value → Option Payload
  | .object r => some (s.object r).payload
  | _ => none

structure SameValues (s s' : Store) : Prop where
  lists : s'.lists = s.lists
  payload : ∀ r, (s'.object r).payload = (s.object r).payload

variable {s s' : Store} {cells : ListRef}

theorem SameValues.refl (s : Store) : s.SameValues s := ⟨rfl, fun _ => rfl⟩

theorem SameValues.trans {s'' : Store} (h : s.SameValues s') (h' : s'.SameValues s'') :
    s.SameValues s'' :=
  ⟨h'.lists.trans h.lists, fun r => (h'.payload r).trans (h.payload r)⟩

theorem SameValues.payload? (h : s.SameValues s') (v : Value) : s'.payload? v = s.payload? v := by
  cases v with
  | object r => exact congrArg some (h.payload r)
  | absent | bare => rfl

theorem sequences_of_lists (h : s'.lists = s.lists) : s'.sequences = s.sequences := by
  rw [sequences, h, sequences]

theorem contents_eq (s : Store) (cells : ListRef) :
    s.contents cells = s.sequences.getD cells.index [] := by
  rw [contents, elements, sequences, List.getD_eq_getElem?_getD, List.getElem?_map,
    Array.getElem?_toList]
  cases s.lists[cells.index]? <;> rfl

theorem sequences_allocateList (s : Store) (vs : Array Value) :
    (s.allocateList vs).2.sequences = s.sequences ++ [vs.toList] := by
  simp [sequences, allocateList]

theorem sequences_updateList {f : Array Value → Array Value} {g : List Value → List Value}
    (hf : ∀ vs, (f vs).toList = g vs.toList) :
    (s.updateList cells f).sequences = s.sequences.modify cells.index g := by
  rw [sequences, updateList, Array.toList_modify]
  apply List.ext_getElem?
  intro j
  simp only [sequences, List.getElem?_map, List.getElem?_modify]
  by_cases hj : cells.index = j
  · cases s.lists.toList[j]? <;> simp [hj, hf]
  · simp [hj]

end Store

inductive Edit
  | create (vs : List Value)
  | append (cells : ListRef) (v : Value)
  | extend (cells others : ListRef)
  | pop (cells : ListRef) (i : Int)
  deriving DecidableEq

namespace Edit

/-- The index counts one of `size` elements, from the start or from the end. -/
abbrev InRange (size : Nat) (i : Int) : Prop := -size ≤ i ∧ i < size

/-- The position among `size` elements that an index means, which is counted from the end if it is
negative. -/
def position (size : Nat) (i : Int) : Nat := if 0 ≤ i then i.toNat else (size + i).toNat

def apply (seqs : List (List Value)) : Edit → List (List Value)
  | create vs => seqs ++ [vs]
  | append cells v => seqs.modify cells.index (· ++ [v])
  | extend cells others => seqs.modify cells.index (· ++ seqs.getD others.index [])
  | pop cells i =>
    seqs.modify cells.index (·.eraseIdx (position (seqs.getD cells.index []).length i))

def applied (seqs : List (List Value)) (edit? : Option Edit) : List (List Value) :=
  edit?.elim seqs (apply seqs)

def gives (seqs : List (List Value)) : Edit → Option Value
  | create _ => none
  | append _ v => some v
  | extend _ _ => some nullValue
  | pop cells i =>
    let vs := seqs.getD cells.index []
    vs[position vs.length i]?

inductive Kind
  | append | extend | pop

/-- The edit that takes out the element that a number means, if there is one. -/
def pop? (s : Store) (cells : ListRef) : Number → Option Edit
  | .int i => if InRange (s.contents cells).length i then some (.pop cells i) else none
  | _ => none

/-- The edit of a kind that a list and another operand ask for, if they fit. -/
def asked? (s : Store) (cells : ListRef) (v : Value) : Kind → Option Edit
  | .append => some (.append cells v)
  | .extend =>
    match s.payload? v with
    | some (.list others) => some (.extend cells others)
    | _ => none
  | .pop =>
    match s.payload? v with
    | some (.number n) => pop? s cells n
    | _ => none

/-- The edit that two operands ask for, if the first is a list. -/
def requested? (s : Store) (kind? : Option Kind) (l : ObjectRef) (v : Value) : Option Edit :=
  match (s.object l).payload with
  | .list cells => kind?.bind (asked? s cells v)
  | _ => none

end Edit

def BinaryOp.editKind? : BinaryOp → Option Edit.Kind
  | .add => some .append
  | .mul => some .extend
  | .sub => some .pop
  | _ => none

def Builtin.editKind? : Builtin → Option Edit.Kind
  | .append => some .append
  | .extend => some .extend
  | .pop => some .pop
  | _ => none

theorem Builtin.length_params_of_editKind? (b : Builtin) (hb : b.editKind?.isSome) :
    b.params.length = 2 := by
  cases b <;> first | rfl | cases hb

section

open Eval

variable {α β : Type} {x : Eval α} {k : α → Eval β} {a : α} {m m' : Machine} {l r : ObjectRef}
  {cells : ListRef} {v : Value} {op : BinaryOp}

theorem Eval.Spares.sequences (h : Spares (·.store.lists) x) (m : Machine) :
    (x m).2.store.sequences = m.store.sequences :=
  Store.sequences_of_lists (h m)

theorem Eval.sequences_bind (hx : x m = (.ok a, m')) (hk : Spares (·.store.lists) (k a)) :
    ((x >>= k) m).2.store.sequences = m'.store.sequences := by
  rw [bind_ok hx]
  exact hk.sequences m'

namespace Eval

def Adds (x : Eval α) : Prop := ∀ m, m.store.sequences <+: (x m).2.store.sequences

theorem Spares.adds (h : Spares (·.store.lists) x) : Adds x := by
  intro m
  simp only [h.sequences m, List.prefix_rfl]

theorem Adds.bind (hx : Adds x) (hk : ∀ a, Adds (k a)) : Adds (x >>= k) := by
  intro m
  have hadds := hx m
  rcases hm : x m with ⟨e | a, m'⟩
  · rw [hm] at hadds
    rwa [bind_error hm]
  · rw [hm] at hadds
    rw [bind_ok hm]
    exact hadds.trans (hk a m')

theorem Adds.allocateList (vs : Array Value) : Adds (Eval.allocateList vs) := fun m =>
  ⟨_, (Store.sequences_allocateList m.store vs).symm⟩

end Eval

namespace Operator

theorem index?_eq_position (size : Nat) (i : Int) :
    index? size i = if Edit.InRange size i then some (Edit.position size i) else none := by
  unfold index? Edit.position
  by_cases hi : 0 ≤ i
  · by_cases hsize : i < size
    · rw [if_pos hi, if_pos hsize, if_pos ⟨by omega, hsize⟩, if_pos hi]
    · rw [if_pos hi, if_neg hsize, if_neg fun h => hsize h.2]
  · by_cases hsize : -i ≤ size
    · rw [if_neg hi, if_pos hsize, if_pos ⟨by omega, by omega⟩, if_neg hi]
      congr 1
      omega
    · rw [if_neg hi, if_neg hsize, if_neg fun h => hsize (by omega)]

theorem takeElement_int (cells : ListRef) (i : Int) (m : Machine) :
    takeElement cells (.int i) m =
      match index? (m.store.elements cells).size i with
      | some k => (.ok (m.store.elements cells)[k]?,
          ⟨m.store.updateList cells (removeAt · k), m.world⟩)
      | none => (.ok none, m) := by
  refine (bind_ok (show elements cells m = (.ok (m.store.elements cells), m) from rfl)).trans ?_
  dsimp only
  cases index? (m.store.elements cells).size i <;> rfl

theorem takeElement_inside {i : Int} (cells : ListRef) (m : Machine)
    (hi : Edit.InRange (m.store.contents cells).length i) :
    ∃ v m', takeElement cells (.int i) m = (.ok (some v), m') ∧
      (Edit.pop cells i).gives m.store.sequences = some v ∧
      m'.store.sequences = (Edit.pop cells i).apply m.store.sequences := by
  have hindex : index? (m.store.elements cells).size i =
      some (Edit.position (m.store.contents cells).length i) := by
    rw [index?_eq_position]
    exact if_pos hi
  have hlt : Edit.position (m.store.contents cells).length i < (m.store.contents cells).length :=
    lt_of_index? hindex
  let k := Edit.position (m.store.contents cells).length i
  refine ⟨(m.store.contents cells)[k], ⟨m.store.updateList cells (removeAt · k), m.world⟩,
    ?_, ?_, ?_⟩
  · rw [takeElement_int, hindex]
    dsimp only
    rw [Array.getElem?_eq_getElem hlt]
    rfl
  · rw [Edit.gives, ← Store.contents_eq]
    exact List.getElem?_eq_getElem hlt
  · rw [Edit.apply, ← Store.contents_eq]
    exact Store.sequences_updateList fun vs => List.toList_toArray

theorem takeElement_cases (cells : ListRef) (n : Number) (m : Machine) :
    (∃ edit v m', Edit.pop? m.store cells n = some edit ∧
      takeElement cells n m = (.ok (some v), m') ∧ edit.gives m.store.sequences = some v ∧
      m'.store.sequences = edit.apply m.store.sequences) ∨
    Edit.pop? m.store cells n = none ∧ takeElement cells n m = (.ok none, m) := by
  cases n with
  | int i =>
    by_cases hi : Edit.InRange (m.store.contents cells).length i
    · obtain ⟨v, m', htake⟩ := takeElement_inside cells m hi
      exact .inl ⟨_, v, m', if_pos hi, htake⟩
    · have hindex : index? (m.store.elements cells).size i = none := by
        rw [index?_eq_position]
        exact if_neg hi
      right
      rw [takeElement_int, hindex]
      exact ⟨if_neg hi, rfl⟩
  | _ => exact .inr ⟨rfl, rfl⟩

theorem spares_onList (h : op.editKind? = none) (l : ObjectRef) (cells : ListRef) (v : Value) :
    Spares (·.store.lists) (onList op l cells v) := by
  refine .look (.payload? v) fun other => ?_
  split
  case h_1 | h_2 | h_3 | h_4 | h_5 => cases h
  case h_6 =>
    refine .look (.elements _) fun vs => ?_
    split <;> simp
  all_goals simp [unknown]

theorem payload?_eq (v : Value) (m : Machine) : payload? v m = (.ok (m.store.payload? v), m) := by
  cases v <;> rfl

theorem sequences_onList_mul (hl : (m.store.object l).payload = .list cells) :
    (onList .mul l cells v m).2.store.sequences =
      Edit.applied m.store.sequences (Edit.asked? m.store cells v .extend) := by
  rw [onList, bind_ok (payload?_eq v m), Edit.asked?]
  rcases hv : m.store.payload? v with _ | p
  · exact (Still.illegalKind l v _).spares.sequences m
  · cases p with
    | list others =>
      dsimp only
      rw [bind_ok (copy_eq (by simp [hl]))]
      apply Store.sequences_updateList
      intro vs
      rw [Array.toList_append, ← Store.contents_eq]
      rfl
    | _ => exact (Still.illegalKind l v _).spares.sequences m

theorem sequences_onList_sub (hl : (m.store.object l).payload = .list cells) :
    (onList .sub l cells v m).2.store.sequences =
      Edit.applied m.store.sequences (Edit.asked? m.store cells v .pop) := by
  rw [onList, bind_ok (payload?_eq v m), Edit.asked?]
  rcases hv : m.store.payload? v with _ | p
  · exact (Still.illegalKind l v _).spares.sequences m
  · cases p with
    | number n =>
      dsimp only
      rw [bind_ok (copy_eq (by simp [hl]))]
      obtain ⟨edit, _, m', hpop, htake, -, hm'⟩ | ⟨hpop, htake⟩ :=
        takeElement_cases cells n ⟨(m.store.allocate (m.store.object l)).2, m.world⟩
      · rw [bind_ok htake, show Edit.pop? m.store cells n = some edit from hpop]
        exact hm'
      · rw [bind_ok htake, show Edit.pop? m.store cells n = none from hpop]
        exact (Still.errorAtRight l v _).spares.sequences _
    | _ => exact (Still.illegalKind l v _).spares.sequences m

theorem sequences_onList (hl : (m.store.object l).payload = .list cells) :
    (onList op l cells v m).2.store.sequences =
      Edit.applied m.store.sequences (op.editKind?.bind (Edit.asked? m.store cells v)) := by
  cases op with
  | add =>
    rw [onList_add hl]
    exact Store.sequences_updateList fun vs => Array.toList_push
  | mul => exact sequences_onList_mul hl
  | sub => exact sequences_onList_sub hl
  | _ => exact (spares_onList rfl l cells v).sequences m

theorem sequences_binary (op : BinaryOp) (l : ObjectRef) (v : Value) (m : Machine) :
    (Operator.binary op l v m).2.store.sequences =
      Edit.applied m.store.sequences (Edit.requested? m.store op.editKind? l v) := by
  rw [Operator.binary, bind_ok (object_apply l m), Edit.requested?]
  cases hl : (m.store.object l).payload with
  | number a => exact (spares_onNumber op l a v).sequences m
  | text a => exact (spares_onText op l a v).sequences m
  | list cells => exact sequences_onList hl
  | file name path => exact (still_onFile op l path v).spares.sequences m
  | null =>
    dsimp only
    split
    · rfl
    · exact (Still.illegal l v _).spares.sequences m
  | function | builtin | plain => exact (Still.illegal l v _).spares.sequences m

end Operator

theorem Eval.sequences_placed {x : Eval Answer} (span : Span) (m : Machine) :
    ((x >>= placed span) m).2.store.sequences = (x m).2.store.sequences := by
  rcases hx : x m with ⟨s | answer, m'⟩
  · rw [bind_error hx]
  · exact sequences_bind hx (spares_placed span answer)

theorem Eval.sequences_binary (op : BinaryOp) (span : Span) (l : ObjectRef) (v : Value)
    (m : Machine) : (Eval.binary op span (.object l) v m).2.store.sequences =
      Edit.applied m.store.sequences (Edit.requested? m.store op.editKind? l v) :=
  (sequences_placed span m).trans (Operator.sequences_binary op l v m)

/-- The product of a list and a number is none, so that no operator with one operand makes an
edit. -/
theorem Eval.sequences_unary (op : UnaryOp) (span : Span) (v : Value) (m : Machine) :
    (Eval.unary op span v m).2.store.sequences = m.store.sequences := by
  cases v with
  | absent | bare => rfl
  | object r =>
    rw [Eval.unary, objectOf_bind, bind_ok (object_apply r m)]
    cases op with
    | plus => exact (spares_placed span _).sequences m
    | not => exact ((Operator.spares_negate r).bind (spares_placed span)).sequences m
    | minus =>
      let m₁ : Machine := ⟨(m.store.allocate (.fresh (.number (.int (-1))))).2, m.world⟩
      have hmake : Eval.make (.number (.int (-1))) m = (.ok (.object ⟨m.store.objects.size⟩), m₁) :=
        rfl
      have hnumber : m₁.store.payload? (.object ⟨m.store.objects.size⟩) =
          some (.number (.int (-1))) :=
        congrArg (fun o : Object => some o.payload) (Store.object_push m.store _)
      have hnone : Edit.requested? m₁.store (some .extend) r (.object ⟨m.store.objects.size⟩) =
          none := by
        rw [Edit.requested?]
        split
        · rw [Option.bind_some, Edit.asked?, hnumber]
        · rfl
      dsimp only
      rw [bind_ok hmake, sequences_placed, Operator.sequences_binary, BinaryOp.editKind?, hnone]
      rfl

end

namespace Edit

/-- How a function ends that is asked for an edit: it makes the edit and gives what belongs to it,
or it reports an error and leaves all sequences as they are. -/
inductive Ends (seqs : List (List Value)) : Option Edit → Except Stop Value × Machine → Prop
  | made {edit : Edit} {v : Value} {m' : Machine} (hv : edit.gives seqs = some v)
    (hm : m'.store.sequences = edit.apply seqs) : Ends seqs (some edit) (.ok v, m')
  | refused {d : Diagnostic} {m' : Machine} (hd : d.kind = .runtime)
    (hm : m'.store.sequences = seqs) : Ends seqs none (.error (.error d), m')

theorem Ends.sequences {seqs : List (List Value)} {edit? : Option Edit}
    {ending : Except Stop Value × Machine} (h : Ends seqs edit? ending) :
    ending.2.store.sequences = applied seqs edit? := by
  cases h with
  | made _ hm => exact hm
  | refused _ hm => exact hm

def called? (s : Store) (b : Builtin) : List Value → Option Edit
  | [.object l, v] => requested? s b.editKind? l v
  | _ => none

theorem requested?_congr {s s' : Store} (h : s.SameValues s') (kind? : Option Kind) (l : ObjectRef)
    (v : Value) : requested? s' kind? l v = requested? s kind? l v := by
  have hcontents (cells : ListRef) : s'.contents cells = s.contents cells := by
    rw [Store.contents, Store.contents, Store.elements, Store.elements, h.lists]
  have hpop (cells : ListRef) (n : Number) : pop? s' cells n = pop? s cells n := by
    cases n <;> simp only [pop?, hcontents]
  have hasked (cells : ListRef) (kind : Kind) : asked? s' cells v kind = asked? s cells v kind := by
    cases kind <;> simp only [asked?, h.payload?, hpop]
  rw [requested?, requested?, h.payload l]
  simp only [funext (hasked _)]

theorem called?_congr {s s' : Store} (h : s.SameValues s') (b : Builtin) (args : List Value) :
    called? s' b args = called? s b args := by
  unfold called?
  simp only [requested?_congr h]

theorem called?_eq_none {b : Builtin} (s : Store) (hb : b.editKind? = none) (args : List Value) :
    called? s b args = none := by
  unfold called?
  split
  · rw [requested?, hb]
    split <;> rfl
  · rfl

theorem called?_of_length (s : Store) (b : Builtin) {args : List Value} (h : args.length ≠ 2) :
    called? s b args = none := by
  unfold called?
  split
  · exact absurd rfl h
  · rfl

end Edit

namespace BuiltinCall

open Eval

variable {m : Machine} {l r : ObjectRef} {b : Builtin} (c : BuiltinCall)

theorem ends_fail (details : String) (m : Machine) :
    Edit.Ends m.store.sequences none (c.fail details m) :=
  .refused rfl rfl

theorem ends_append {cells : ListRef} (hl : (m.store.object l).payload = .list cells) :
    Edit.Ends m.store.sequences (Edit.requested? m.store (some .append) l (.object r))
      (c.append l r m) := by
  rw [append, bind_ok (object_apply l m), Edit.requested?, hl]
  exact .made rfl (Store.sequences_updateList fun vs => Array.toList_push)

theorem ends_extend (l r : ObjectRef) (m : Machine) :
    Edit.Ends m.store.sequences (Edit.requested? m.store (some .extend) l (.object r))
      (c.extend l r m) := by
  rw [extend, listArg, bind_assoc, bind_ok (object_apply l m), Edit.requested?]
  cases hl : (m.store.object l).payload with
  | list cells =>
    dsimp only
    rw [pure_bind, listArg, bind_assoc, bind_ok (object_apply r m), Option.bind_some, Edit.asked?,
      Store.payload?]
    cases hr : (m.store.object r).payload with
    | list others =>
      refine .made rfl (Store.sequences_updateList fun vs => ?_)
      rw [Array.toList_append, ← Store.contents_eq]
      rfl
    | _ => exact c.ends_fail _ m
  | _ => exact c.ends_fail _ m

theorem ends_pop (l r : ObjectRef) (m : Machine) :
    Edit.Ends m.store.sequences (Edit.requested? m.store (some .pop) l (.object r))
      (c.pop l r m) := by
  rw [pop, listArg, bind_assoc, bind_ok (object_apply l m), Edit.requested?]
  cases hl : (m.store.object l).payload with
  | list cells =>
    dsimp only
    rw [pure_bind, numberArg, bind_assoc, bind_ok (object_apply r m), Option.bind_some, Edit.asked?,
      Store.payload?]
    cases hr : (m.store.object r).payload with
    | number n =>
      dsimp only
      rw [pure_bind]
      obtain ⟨edit, v, m', hpop, htake, hv, hm'⟩ | ⟨hpop, htake⟩ :=
        Operator.takeElement_cases cells n m
      · rw [bind_ok htake, hpop]
        exact .made hv hm'
      · rw [bind_ok htake, hpop]
        exact c.ends_fail _ m
    | _ => exact c.ends_fail _ m
  | _ => exact c.ends_fail _ m

theorem sequences_append (l r : ObjectRef) (m : Machine) :
    (c.append l r m).2.store.sequences =
      Edit.applied m.store.sequences (Edit.requested? m.store (some .append) l (.object r)) := by
  cases hl : (m.store.object l).payload with
  | list cells => exact (c.ends_append hl).sequences
  | text s =>
    rw [append, bind_ok (object_apply l m), Edit.requested?, hl]
    refine (Spares.look (.plainNumber _) fun n => ?_).sequences m
    split <;> simp
  | _ =>
    rw [append, bind_ok (object_apply l m), Edit.requested?, hl]
    exact (c.ends_fail _ m).sequences

theorem adds_split (s sep : ObjectRef) : Adds (c.split s sep) := by
  refine .bind (Still.textArg c s _).spares.adds fun s => ?_
  refine .bind (Still.textArg c sep _).spares.adds fun sep => ?_
  refine .bind (spares_texts _).adds fun pieces => ?_
  exact .bind (.allocateList _) fun cells => (Spares.make _).adds

/-- A function makes the edit that its arguments ask for, if it makes no new list. -/
theorem sequences_perform (hb : b ≠ .split) (refs : List ObjectRef) (m : Machine) :
    (c.perform b refs m).2.store.sequences =
      Edit.applied m.store.sequences (Edit.called? m.store b (refs.map .object)) := by
  by_cases hedits : b.editsLists = false
  · have hkind : b.editKind? = none := by cases b <;> first | rfl | cases hedits
    rw [Edit.called?_eq_none m.store hkind]
    exact (spares_lists_perform c hedits refs).sequences m
  · rcases refs with _ | ⟨l, _ | ⟨r, _ | ⟨r', refs⟩⟩⟩
    case cons.cons.nil =>
      cases b with
      | append => exact c.sequences_append l r m
      | extend => exact (c.ends_extend l r m).sequences
      | pop => exact (c.ends_pop l r m).sequences
      | split => exact absurd rfl hb
      | _ => exact absurd rfl hedits
    all_goals cases b <;> first | rfl | exact absurd rfl hedits

/-- A function that is there for an edit makes the one that its arguments ask for. Only adding to
something else than a list is another thing. -/
theorem ends_perform (hb : b.editKind?.isSome) {refs : List ObjectRef}
    (hrefs : refs.length = b.params.length)
    (hlist : b = .append → (Edit.called? m.store b (refs.map .object)).isSome) :
    Edit.Ends m.store.sequences (Edit.called? m.store b (refs.map .object))
      (c.perform b refs m) := by
  rw [b.length_params_of_editKind? hb] at hrefs
  obtain ⟨l, r, rfl⟩ := List.length_eq_two.mp hrefs
  cases b with
  | append =>
    have hlist : (Edit.requested? m.store (some .append) l (.object r)).isSome := hlist rfl
    cases hl : (m.store.object l).payload with
    | list cells => exact c.ends_append hl
    | _ =>
      rw [Edit.requested?, hl] at hlist
      cases hlist
  | extend => exact c.ends_extend l r m
  | pop => exact c.ends_pop l r m
  | _ => cases hb

end BuiltinCall

namespace Eval

namespace Event

variable {e f : Event} {m m' : Machine}

def operatorEdit? (fuel depth : Nat) (context : Context) (op : BinaryOp) (x y : Node)
    (m : Machine) : Option Edit :=
  match eval fuel depth context x m with
  | (.ok (.object l), m₁) =>
    match eval fuel depth context y m₁ with
    | (.ok v, m₂) => Edit.requested? m₂.store op.editKind? l v
    | _ => none
  | _ => none

def callEdit? (r : ObjectRef) (args : List Value) (m : Machine) : Option Edit :=
  match (m.store.object r).payload with
  | .builtin name =>
    match Builtin.ofName? name with
    | some b =>
      match enterFunction r (m.store.object r) name b.params args m with
      | (.ok _, _) => Edit.called? m.store b args
      | _ => none
    | none => none
  | _ => none

/-- The edit that an event makes itself, when all that it comes to is over. -/
def edit? : Event → Option Edit
  | .part (.inside depth context ⟨.node (.binary _ op x y), fuel + 1, m⟩) =>
    operatorEdit? fuel depth context op x y m
  | .part (.call (_ + 1) (_ + 1) r args m) => callEdit? r args m
  | _ => none

def makesList : Event → Bool
  | .part (.inside _ _ p) => p.task.makesList
  | .part (.call _ _ r _ m) =>
    match (m.store.object r).payload with
    | .builtin name => Builtin.ofName? name == some .split
    | _ => false
  | _ => false

/-- The machine when all that the event comes to is over. -/
def settled (e : Event) : Machine := e.parts.foldl (fun _ f => f.after) e.machine

/-- What the event does to the sequences itself: it makes an edit, or a new list. -/
def own (e : Event) : List Edit :=
  match e.edit? with
  | some edit => [edit]
  | none =>
    if e.makesList then
      (e.after.store.sequences.drop e.settled.store.sequences.length).map .create
    else []

/-- The edits of an event and of all that it comes to, down to `n` levels, in the order of time. -/
def journal : Nat → Event → List Edit
  | 0, _ => []
  | n + 1, e => e.parts.flatMap (journal n) ++ e.own

def edits (e : Event) : List Edit := e.journal (e.fuel + 1)

theorem edit?_binary {fuel depth : Nat} {context : Context} {span : Span} {op : BinaryOp}
    {x y : Node} {l : ObjectRef} {v : Value} {m₁ m₂ : Machine}
    (hl : eval fuel depth context x m = (.ok (.object l), m₁))
    (hr : eval fuel depth context y m₁ = (.ok v, m₂)) :
    (inside (fuel + 1) depth context m (.node (.binary span op x y))).edit? =
      Edit.requested? m₂.store op.editKind? l v := by
  rw [edit?, operatorEdit?, hl]
  dsimp only
  rw [hr]

theorem edit?_call {fuel depth : Nat} {r : ObjectRef} {name : String} {b : Builtin}
    {args : List Value} {context : Context} (hp : (m.store.object r).payload = .builtin name)
    (hb : Builtin.ofName? name = some b)
    (he : enterFunction r (m.store.object r) name b.params args m = (.ok context, m')) :
    (Event.part (.call (fuel + 1) (depth + 1) r args m)).edit? = Edit.called? m.store b args := by
  rw [edit?, callEdit?, hp]
  dsimp only
  rw [hb]
  dsimp only
  rw [he]

theorem edit?_call_error {fuel depth : Nat} {r : ObjectRef} {name : String} {b : Builtin}
    {args : List Value} {stop : Stop} (hp : (m.store.object r).payload = .builtin name)
    (hb : Builtin.ofName? name = some b)
    (he : enterFunction r (m.store.object r) name b.params args m = (.error stop, m')) :
    (Event.part (.call (fuel + 1) (depth + 1) r args m)).edit? = none := by
  rw [edit?, callEdit?, hp]
  dsimp only
  rw [hb]
  dsimp only
  rw [he]

theorem sameValues_of_receives {context : Context} (h : ReflTransGen (Receives context) m m') :
    m.store.SameValues m'.store := by
  induction h with
  | refl => exact .refl _
  | tail _ hstep ih =>
    cases hstep with
    | enter r => exact ih.trans ⟨rfl, fun q => Store.payload_update _ r q fun _ => rfl⟩
    | bind x r => exact ih.trans ⟨rfl, fun q => rfl⟩

theorem sameValues_of_enterFunction {r : ObjectRef} {callee : Object} {name : String}
    {params : List String} {args : List Value} {context : Context}
    (h : enterFunction r callee name params args m = (.ok context, m')) :
    m.store.SameValues m'.store := by
  obtain ⟨m₁, m₂, refs, hcontext, hcount, hargs⟩ := enterFunction_eq_ok h
  have hreceived := receives_bindArgs context params args m₂
  rw [hargs, (Still.checkCount r callee params args).eq hcount] at hreceived
  obtain ⟨outer, -, -, rfl⟩ := callContext_eq_ok hcontext
  have htables : m.store.SameValues ((m.store.childOf outer.symbols).2.childOf outer.hidden).2 :=
    ⟨rfl, fun _ => rfl⟩
  exact htables.trans (sameValues_of_receives hreceived)

theorem world_of_receives {context : Context} (h : ReflTransGen (Receives context) m m') :
    m'.world = m.world := by
  induction h with
  | refl => rfl
  | tail _ hstep ih => cases hstep <;> exact ih

theorem world_of_enterFunction {r : ObjectRef} {callee : Object} {name : String}
    {params : List String} {args : List Value} {context : Context}
    (h : enterFunction r callee name params args m = (.ok context, m')) :
    m'.world = m.world := by
  obtain ⟨m₁, m₂, refs, hcontext, hcount, hargs⟩ := enterFunction_eq_ok h
  have hreceived := receives_bindArgs context params args m₂
  rw [hargs, (Still.checkCount r callee params args).eq hcount] at hreceived
  obtain ⟨outer, -, -, rfl⟩ := callContext_eq_ok hcontext
  have hworld := world_of_receives hreceived
  exact hworld

theorem Acts.lists (h : Acts e m m') : m'.store.lists = m.store.lists := by
  cases h with
  | value _ hl => exact hl
  | entry hc ha =>
    obtain ⟨outer, -, -, rfl⟩ := callContext_eq_ok hc
    exact (sameValues_of_receives ha).lists
  | module hh hz hb =>
    cases hh
    cases hz
    cases hb
    rfl
  | _ => rfl

theorem sequences_of_acts (h : ReflTransGen (Acts e) m m') :
    m'.store.sequences = m.store.sequences := by
  apply Store.sequences_of_lists
  induction h with
  | refl => rfl
  | tail _ hact ih => exact hact.lists.trans ih

theorem Works.sequences (h : Works e m m') (he : e.edit? = none) :
    m'.store.sequences = m.store.sequences ∨
      e.makesList = true ∧ m.store.sequences <+: m'.store.sequences := by
  cases h with
  | rest => exact .inl rfl
  | list vs hp => exact .inr ⟨hp, Adds.allocateList vs.toArray m⟩
  | @binary depth context fuel span op x y m₀ l m₁ r _ hl hr =>
    left
    cases l with
    | absent | bare => rfl
    | object l =>
      rw [sequences_binary, ← edit?_binary hl hr, he]
      rfl
  | unary hv => exact .inl (sequences_unary _ _ _ _)
  | @perform fuel depth r name b context m₀ _ refs hp hb hentered =>
    by_cases hsplit : b = .split
    · subst hsplit
      right
      have hmakes : (Event.part (.call (fuel + 1) (depth + 1) r (refs.map .object) m₀)).makesList =
          true := by
        rw [makesList, hp]
        simp [hb]
      rcases refs with _ | ⟨l, _ | ⟨r, _ | ⟨r', refs⟩⟩⟩
      case cons.cons.nil => exact ⟨hmakes, BuiltinCall.adds_split _ l r m⟩
      all_goals exact ⟨hmakes, List.prefix_rfl⟩
    · left
      rw [BuiltinCall.sequences_perform _ hsplit,
        Edit.called?_congr (sameValues_of_enterFunction hentered), ← edit?_call hp hb hentered, he]
      rfl

theorem Tiles.settled_adds {fs : List Event} (ht : Tiles e m fs m') (he : e.edit? = none) :
    m'.store.sequences = (fs.foldl (fun _ f => f.after) m).store.sequences ∨
      e.makesList = true ∧
        (fs.foldl (fun _ f => f.after) m).store.sequences <+: m'.store.sequences := by
  induction ht with
  | last hacts hwork hacts' =>
    rw [sequences_of_acts hacts', List.foldl_nil, ← sequences_of_acts hacts]
    exact hwork.sequences he
  | part _ _ _ ih => exact ih

theorem Tiles.settled_eq {fs : List Event} {J : Event → List Edit} (ht : Tiles e m fs m')
    (hJ : ∀ f ∈ fs, f.after.store.sequences = (J f).foldl Edit.apply f.machine.store.sequences) :
    (fs.foldl (fun _ f => f.after) m).store.sequences =
      (fs.flatMap J).foldl Edit.apply m.store.sequences := by
  induction ht with
  | last => rfl
  | @part _ f fs _ hacts _ _ ih =>
    rw [List.foldl_cons, List.flatMap_cons, List.foldl_append, ← sequences_of_acts hacts,
      ← hJ f List.mem_cons_self]
    exact ih fun g hg => hJ g (List.mem_cons_of_mem f hg)

theorem after_of_operatorEdit? {fuel depth : Nat} {context : Context} {span : Span} {op : BinaryOp}
    {x y : Node} {edit : Edit} (h : operatorEdit? fuel depth context op x y m = some edit) :
    (eval (fuel + 1) depth context (.binary span op x y) m).2.store.sequences = edit.apply
      (inside (fuel + 1) depth context m
        (.node (.binary span op x y))).settled.store.sequences := by
  unfold operatorEdit? at h
  split at h
  · next l m₁ hl =>
    split at h
    · next v m₂ hr =>
      have hsettled : (inside (fuel + 1) depth context m
          (.node (.binary span op x y))).settled = m₂ := by
        rw [settled, parts, taskParts, nodeParts, hl]
        exact congrArg Prod.snd hr
      rw [eval, bind_ok hl, bind_ok hr, sequences_binary, h, hsettled]
      rfl
    · cases h
  · cases h

theorem after_of_callEdit? {fuel depth : Nat} {r : ObjectRef} {args : List Value} {edit : Edit}
    (h : callEdit? r args m = some edit) :
    (call (fuel + 1) (depth + 1) r args m).2.store.sequences =
      edit.apply (Event.part (.call (fuel + 1) (depth + 1) r args m)).settled.store.sequences := by
  unfold callEdit? at h
  split at h
  · next name hp =>
    split at h
    · next b hb =>
      split at h
      · next context m₁ hentered =>
        have hkind : b.editKind? ≠ none := by
          intro hnone
          rw [Edit.called?_eq_none m.store hnone] at h
          cases h
        have hrun : b ≠ .run := by
          rintro rfl
          exact hkind rfl
        have hsplit : b ≠ .split := by
          rintro rfl
          exact hkind rfl
        have hsettled : (Event.part (.call (fuel + 1) (depth + 1) r args m)).settled = m := by
          rw [settled, parts, callParts, hp]
          dsimp only
          rw [hb, if_neg (by simpa using hrun)]
          rfl
        rcases call_builtin_cases fuel depth args hp hb with
          ⟨s, m', hfails, -⟩ | ⟨context', m', refs, hok, rfl, hcall⟩
        · cases hentered.symm.trans hfails
        · cases hentered.symm.trans hok
          have hsame := sameValues_of_enterFunction hentered
          rw [hcall, performed_eq hrun, BuiltinCall.sequences_perform _ hsplit,
            Edit.called?_congr hsame, h, hsettled, Store.sequences_of_lists hsame.lists]
          rfl
      · cases h
    · cases h
  · cases h

theorem after_of_edit? {edit : Edit} (h : e.edit? = some edit) :
    e.after.store.sequences = edit.apply e.settled.store.sequences := by
  unfold edit? at h
  split at h
  · exact after_of_operatorEdit? h
  · exact after_of_callEdit? h
  · cases h

theorem foldl_create (seqs new : List (List Value)) :
    (new.map Edit.create).foldl Edit.apply seqs = seqs ++ new := by
  induction new generalizing seqs with
  | nil => simp
  | cons vs new ih => simp [ih, Edit.apply]

theorem sequences_own (e : Event) :
    e.after.store.sequences = e.own.foldl Edit.apply e.settled.store.sequences := by
  unfold own
  split
  · next edit h => exact after_of_edit? h
  · next h =>
    rcases (Event.tiles e).settled_adds h with hsame | ⟨hmakes, hadds⟩
    · have hnew : e.after.store.sequences.drop e.settled.store.sequences.length = [] := by
        rw [hsame]
        exact List.drop_length
      rw [hnew, List.map_nil, ite_self]
      exact hsame
    · rw [if_pos hmakes, foldl_create]
      exact (List.prefix_iff_eq_append.mp hadds).symm

/-- A whole evaluation does to the sequences what its journal says. -/
theorem sequences_journal {n : Nat} (hn : e.fuel < n) :
    e.after.store.sequences = (e.journal n).foldl Edit.apply e.machine.store.sequences := by
  induction n generalizing e with
  | zero => omega
  | succ n ih =>
    have hparts := (Event.tiles e).settled_eq (J := journal n) fun f hf =>
      ih (Nat.lt_of_lt_of_le (leads_iff.mpr hf).fuel_lt (Nat.le_of_lt_succ hn))
    rw [journal, List.foldl_append, ← hparts]
    exact sequences_own e

end Event

end Eval

end Think
