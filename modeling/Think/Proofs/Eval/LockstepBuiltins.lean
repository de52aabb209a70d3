import Think.Proofs.Eval.Lockstep

/-! # Operators and functions in step

The operators and the functions of the language go in step on operands and arguments that are
alike. Each theorem follows the steps of its function.
-/

namespace Think

open Eval

section Lists

variable {α : Type} {R : α → α → Prop} {as bs : List α}

theorem forall₂_eraseIdx (h : List.Forall₂ R as bs) (i : Nat) :
    List.Forall₂ R (as.eraseIdx i) (bs.eraseIdx i) := by
  rw [List.eraseIdx_eq_take_drop_succ, List.eraseIdx_eq_take_drop_succ]
  exact List.rel_append (List.forall₂_take i h) (List.forall₂_drop (i + 1) h)

theorem forall₂_getElem? (h : List.Forall₂ R as bs) (i : Nat) :
    Option.Rel R as[i]? bs[i]? := by
  induction h generalizing i with
  | nil => exact .none
  | cons hab _ ih =>
    cases i with
    | zero => exact .some hab
    | succ i => exact ih i

theorem forall₂_push {vs ws : Array α} {a b : α} (h : List.Forall₂ R vs.toList ws.toList)
    (hab : R a b) : List.Forall₂ R (vs.push a).toList (ws.push b).toList := by
  rw [Array.toList_push, Array.toList_push]
  exact List.rel_append h (.cons hab .nil)

theorem forall₂_append {vs ws vs' ws' : Array α} (h : List.Forall₂ R vs.toList ws.toList)
    (h' : List.Forall₂ R vs'.toList ws'.toList) :
    List.Forall₂ R (vs ++ vs').toList (ws ++ ws').toList := by
  rw [Array.toList_append, Array.toList_append]
  exact List.rel_append h h'

theorem forall₂_size {vs ws : Array α} (h : List.Forall₂ R vs.toList ws.toList) :
    ws.size = vs.size := by
  rw [← Array.length_toList, ← Array.length_toList, h.length_eq]

end Lists

inductive Answer.Alike (ρ : Pairing) : Answer → Answer → Prop
  | value {v w : Value} : Value.Alike ρ v w → Alike ρ (.value v) (.value w)
  | truth (b : Bool) : Alike ρ (.truth b) (.truth b)

def Relates.answer : Relates Answer := fun ρ _ => Answer.Alike ρ

namespace Operator

variable {α : Type} {ρ : Pairing} {P : α → α → Prop} {m m' : Machine} {l l' : ObjectRef}
  {v w : Value}

theorem looks_illegal (hl : ρ.objects l l') (hv : Value.Alike ρ v w) (reason : String) :
    Looks ρ P (illegal l v reason : Eval α) (illegal l' w reason) m m' := by
  apply Looks.bind (Looks.object hl)
  intro o o' ho
  apply Looks.bind (Looks.isSomething hv)
  intro s s' hs
  rw [hs]
  split
  · apply Looks.bind (Looks.objectOf hv)
    rintro ⟨r, other⟩ ⟨r', other'⟩ ⟨-, -, -, hother⟩
    exact .error ho.start hother.stop ho.context
  · exact .error ho.start ho.stop ho.context

theorem looks_unknown (hl : ρ.objects l l') (hv : Value.Alike ρ v w) :
    Looks ρ P (unknown l v : Eval α) (unknown l' w) m m' := looks_illegal hl hv _

theorem looks_illegalKind (hl : ρ.objects l l') (hv : Value.Alike ρ v w) (action : String) :
    Looks ρ P (illegalKind l v action : Eval α) (illegalKind l' w action) m m' := by
  apply Looks.bind (Looks.kindName hv)
  rintro kind _ rfl
  exact looks_illegal hl hv _

theorem looks_errorAtRight (hl : ρ.objects l l') (hv : Value.Alike ρ v w) (details : String) :
    Looks ρ P (errorAtRight l v details : Eval α) (errorAtRight l' w details) m m' := by
  apply Looks.bind (Looks.object hl)
  intro o o' ho
  apply Looks.bind (Looks.objectOf hv)
  rintro ⟨r, other⟩ ⟨r', other'⟩ ⟨-, -, -, hother⟩
  exact .error hother.start hother.stop ho.context

theorem looks_payload? (hv : Value.Alike ρ v w) :
    Looks ρ (Option.Rel (Payload.Alike ρ)) (payload? v) (payload? w) m m' := by
  cases hv with
  | object h =>
    apply Looks.bind (Looks.object h)
    intro o o' ho
    exact .pure (.some ho.payload)
  | absent => exact .pure .none
  | bare t => exact .pure .none

theorem inStep_result {p p' : Payload} (hl : ρ.objects l l') (hp : Payload.Alike ρ p p') :
    InStep ρ Relates.answer (result l p) (result l' p') m m' := by
  apply InStep.look (Looks.object hl)
  intro o o' ho
  apply InStep.bind (InStep.allocate ((Object.Alike.fresh hp).within ho.context))
  intro ρ' r q t t' _ hr
  exact .pure (.value (.object hr))

theorem inStep_onNumber (op : BinaryOp) (hl : ρ.objects l l') (a : Number)
    (hv : Value.Alike ρ v w) :
    InStep ρ Relates.answer (onNumber op l a v) (onNumber op l' a w) m m' := by
  apply InStep.look (looks_payload? hv)
  intro p p' hp
  have hkind : InStep ρ Relates.answer (illegalKind l v (numberAction op))
      (illegalKind l' w (numberAction op)) m m' := .of_looks (looks_illegalKind hl hv _)
  cases hp with
  | none => exact hkind
  | some hp =>
    cases hp with
    | number b =>
      dsimp only
      split
      · exact .of_looks (looks_errorAtRight hl hv _)
      · apply InStep.lookSame (Looks.lift _)
        intro n
        exact inStep_result hl (.number n)
    | _ => exact hkind

theorem inStep_onText (op : BinaryOp) (hl : ρ.objects l l') (a : String)
    (hv : Value.Alike ρ v w) :
    InStep ρ Relates.answer (onText op l a v) (onText op l' a w) m m' := by
  apply InStep.look (looks_payload? hv)
  intro p p' hp
  have hkind (action : String) : InStep ρ Relates.answer (illegalKind l v action)
      (illegalKind l' w action) m m' := .of_looks (looks_illegalKind hl hv action)
  have hunknown : InStep ρ Relates.answer (unknown l v) (unknown l' w) m m' :=
    .of_looks (looks_unknown hl hv)
  have hshown (p : Payload) : InStep ρ Relates.answer
      (do
        let other ← shown v
        let method := s!"<bound method {ownerName p}.type of {other}>"
        illegal l v s!"Can't get a string from a type of '{method}'")
      (do
        let other ← shown w
        let method := s!"<bound method {ownerName p}.type of {other}>"
        illegal l' w s!"Can't get a string from a type of '{method}'") m m' := by
    apply InStep.lookSame (Looks.shown hv)
    intro t
    exact .of_looks (looks_illegal hl hv _)
  cases op with
  | add =>
    cases hp with
    | none => exact hkind _
    | some hp =>
      cases hp with
      | text b => exact inStep_result hl (.text _)
      | _ => exact hkind _
  | mul =>
    cases hp with
    | none => exact hkind _
    | some hp =>
      cases hp with
      | number n =>
        cases n with
        | int i =>
          apply InStep.lookSame (Looks.lift _)
          intro t
          exact inStep_result hl (.text t)
        | _ => exact .fault _
      | _ => exact hkind _
  | eq | ne =>
    cases hp with
    | none => exact hkind _
    | some hp =>
      cases hp with
      | text b => exact inStep_result hl (.number _)
      | _ => exact hkind _
  | dot =>
    cases hp with
    | none => exact .fault _
    | some hp =>
      cases hp with
      | text b => exact inStep_result hl (.text _)
      | number n =>
        dsimp only
        split
        · exact inStep_result hl (.text _)
        · exact .of_looks (looks_errorAtRight hl hv _)
      | @list c _ _ => exact hshown (.list c)
      | null => exact hshown .null
      | @function name params body _ e _ => exact hshown (.function name params body e)
      | builtin name => exact hshown (.builtin name)
      | file name path => exact hshown (.file name path)
      | plain => exact hshown .plain
  | _ => exact hunknown

theorem inStep_takeElement {c d : ListRef} (hc : ρ.lists c d) (n : Number) :
    InStep ρ (fun ρ _ => Option.Rel (Value.Alike ρ)) (takeElement c n) (takeElement d n) m m' := by
  apply InStep.look (Looks.elements hc)
  intro vs ws hvs
  rw [forall₂_size hvs]
  dsimp only
  split
  · next i _ =>
    have herase : ∀ as bs : Array Value, List.Forall₂ (Value.Alike ρ) as.toList bs.toList →
        List.Forall₂ (Value.Alike ρ) (removeAt as i).toList (removeAt bs i).toList :=
      fun as bs h => forall₂_eraseIdx h i
    apply InStep.bind (InStep.updateList hc herase)
    intro ρ' _ _ t t' hg _
    apply InStep.pure
    have hget := forall₂_getElem? (Value.alike_mono hvs hg.toSub) i
    rwa [Array.getElem?_toList, Array.getElem?_toList] at hget
  · exact .pure .none

theorem inStep_copy {r q : ObjectRef} (h : ρ.objects r q) :
    InStep ρ Relates.object (copy r) (copy q) m m' := by
  apply InStep.look (Looks.object h)
  rintro ⟨p, start, stop, c⟩ ⟨p', start', stop', c'⟩ ho
  have hp := ho.payload
  dsimp only at hp ⊢
  cases hp with
  | plain => exact .fault _
  | _ => exact .allocate ho

theorem inStep_onList (op : BinaryOp) (hl : ρ.objects l l') {c d : ListRef} (hc : ρ.lists c d)
    (hv : Value.Alike ρ v w) :
    InStep ρ Relates.answer (onList op l c v) (onList op l' d w) m m' := by
  apply InStep.look (looks_payload? hv)
  intro p p' hp
  have hkind (action : String) : InStep ρ Relates.answer (illegalKind l v action)
      (illegalKind l' w action) m m' := .of_looks (looks_illegalKind hl hv action)
  cases op with
  | add =>
    apply InStep.bind (inStep_copy hl)
    intro ρ' r q t t' hg hr
    apply InStep.bind
      (InStep.updateList (hg.lists hc) fun _ _ h => forall₂_push h (hv.mono hg.toSub))
    intro ρ'' _ _ u u' hg' _
    exact .pure (.value (.object (hg'.objects hr)))
  | sub =>
    cases hp with
    | none => exact hkind _
    | some hp =>
      cases hp with
      | number n =>
        apply InStep.bind (inStep_copy hl)
        intro ρ' r q t t' hg hr
        apply InStep.bind (inStep_takeElement (hg.lists hc) n)
        intro ρ'' taken taken' u u' hg' htaken
        cases htaken with
        | some _ => exact .pure (.value (.object (hg'.objects hr)))
        | none =>
          have hgrown := hg.trans hg'
          exact .of_looks (looks_errorAtRight (hgrown.objects hl) (hv.mono hgrown.toSub) _)
      | _ => exact hkind _
  | mul =>
    cases hp with
    | none => exact hkind _
    | some hp =>
      cases hp with
      | list hother =>
        apply InStep.bind (inStep_copy hl)
        intro ρ' r q t t' hg hr
        apply InStep.look (Looks.elements (hg.lists hother))
        intro vs ws hvs
        apply InStep.bind (InStep.updateList (hg.lists hc) fun _ _ h => forall₂_append h hvs)
        intro ρ'' _ _ u u' hg' _
        exact .pure (.value (.object (hg'.objects hr)))
      | _ => exact hkind _
  | gt =>
    have hillegal (reason : String) : InStep ρ Relates.answer (illegal l v reason)
        (illegal l' w reason) m m' := .of_looks (looks_illegal hl hv reason)
    cases hp with
    | none => exact hillegal _
    | some hp =>
      cases hp with
      | number n =>
        cases n with
        | int i =>
          apply InStep.look (Looks.elements hc)
          intro vs ws hvs
          rw [forall₂_size hvs]
          have hfound : Option.Rel (Value.Alike ρ) ((index? vs.size i).bind (vs[·]?))
              ((index? vs.size i).bind (ws[·]?)) := by
            cases index? vs.size i with
            | none => exact .none
            | some k =>
              have hget := forall₂_getElem? hvs k
              rwa [Array.getElem?_toList, Array.getElem?_toList] at hget
          generalize (index? vs.size i).bind (vs[·]?) = found at hfound ⊢
          generalize (index? vs.size i).bind (ws[·]?) = found' at hfound ⊢
          cases hfound with
          | some h => exact .pure (.value h)
          | none => exact .of_looks (looks_errorAtRight hl hv _)
        | _ => exact .fault _
      | _ => exact hillegal _
  | _ => exact .of_looks (looks_unknown hl hv)

theorem inStep_onFile (op : BinaryOp) (hl : ρ.objects l l') (path : String)
    (hv : Value.Alike ρ v w) :
    InStep ρ Relates.answer (onFile op l path v) (onFile op l' path w) m m' := by
  cases op with
  | eq =>
    apply InStep.look (looks_payload? hv)
    intro p p' hp
    have hkind (action : String) : InStep ρ Relates.answer (illegalKind l v action)
        (illegalKind l' w action) m m' := .of_looks (looks_illegalKind hl hv action)
    cases hp with
    | none => exact hkind _
    | some hp =>
      cases hp with
      | file name other => exact .pure (.truth _)
      | _ => exact hkind _
  | _ => exact .of_looks (looks_unknown hl hv)

theorem inStep_binary (op : BinaryOp) (hl : ρ.objects l l') (hv : Value.Alike ρ v w) :
    InStep ρ Relates.answer (binary op l v) (binary op l' w) m m' := by
  apply InStep.look (Looks.object hl)
  rintro ⟨p, start, stop, c⟩ ⟨p', start', stop', c'⟩ ⟨hp, -, -, -⟩
  dsimp only at hp ⊢
  have hunknown : InStep ρ Relates.answer (unknown l v) (unknown l' w) m m' :=
    .of_looks (looks_unknown hl hv)
  cases hp with
  | number a => exact inStep_onNumber op hl a hv
  | text a => exact inStep_onText op hl a hv
  | list hc => exact inStep_onList op hl hc hv
  | file name path => exact inStep_onFile op hl path hv
  | null =>
    dsimp only
    split
    · exact .pure (.value hv)
    · exact hunknown
  | _ => exact hunknown

theorem inStep_negate (hl : ρ.objects l l') :
    InStep ρ Relates.answer (negate l) (negate l') m m' := by
  apply InStep.look (Looks.object hl)
  rintro ⟨p, start, stop, c⟩ ⟨p', start', stop', c'⟩ ⟨hp, -, -, -⟩
  dsimp only at hp ⊢
  cases hp with
  | number a => exact inStep_result hl (.number _)
  | null => exact inStep_result hl (.number _)
  | _ => exact .fault _

end Operator

structure BuiltinCall.Alike (ρ : Pairing) (n : Nat) (c c' : BuiltinCall) : Prop where
  callee : Object.Alike ρ n c.callee c'.callee
  context : Context.Alike n c.context c'.context

namespace BuiltinCall

variable {α : Type} {ρ : Pairing} {P : α → α → Prop} {m m' : Machine} {n : Nat}
  {c c' : BuiltinCall} {r q a a' b b' : ObjectRef} {v w : Value}

theorem Alike.mono {ρ' : Pairing} {k : Nat} (h : Alike ρ n c c') (hs : ρ.Sub ρ') (hk : n ≤ k) :
    Alike ρ' k c c' :=
  ⟨h.callee.mono hs hk, h.context.mono hk⟩

theorem looks_fail (h : Alike ρ n c c') (details details' : String) :
    Looks ρ P (c.fail details : Eval α) (c'.fail details') m m' :=
  .error h.callee.start h.callee.stop (.some h.context)

theorem inStep_fail {R : Relates α} (h : Alike ρ n c c') (details details' : String) :
    InStep ρ R (c.fail details : Eval α) (c'.fail details') m m' :=
  .of_looks (looks_fail h details details')

theorem looks_textArg (h : Alike ρ n c c') (hr : ρ.objects r q) (otherwise : String) :
    Looks ρ Eq (c.textArg r otherwise) (c'.textArg q otherwise) m m' := by
  apply Looks.bind (Looks.object hr)
  rintro ⟨p, start, stop, k⟩ ⟨p', start', stop', k'⟩ ⟨hp, -, -, -⟩
  dsimp only at hp ⊢
  cases hp with
  | text s => exact .pure rfl
  | _ => exact looks_fail h _ _

theorem looks_numberArg (h : Alike ρ n c c') (hr : ρ.objects r q) (otherwise : String) :
    Looks ρ Eq (c.numberArg r otherwise) (c'.numberArg q otherwise) m m' := by
  apply Looks.bind (Looks.object hr)
  rintro ⟨p, start, stop, k⟩ ⟨p', start', stop', k'⟩ ⟨hp, -, -, -⟩
  dsimp only at hp ⊢
  cases hp with
  | number i => exact .pure rfl
  | _ => exact looks_fail h _ _

theorem looks_listArg (h : Alike ρ n c c') (hr : ρ.objects r q) (otherwise : String) :
    Looks ρ ρ.lists (c.listArg r otherwise) (c'.listArg q otherwise) m m' := by
  apply Looks.bind (Looks.object hr)
  rintro ⟨p, start, stop, k⟩ ⟨p', start', stop', k'⟩ ⟨hp, -, -, -⟩
  dsimp only at hp ⊢
  cases hp with
  | list hc => exact .pure hc
  | _ => exact looks_fail h _ _

theorem looks_fileArg (h : Alike ρ n c c') (hr : ρ.objects r q) (otherwise : String) :
    Looks ρ Eq (c.fileArg r otherwise) (c'.fileArg q otherwise) m m' := by
  apply Looks.bind (Looks.object hr)
  rintro ⟨p, start, stop, k⟩ ⟨p', start', stop', k'⟩ ⟨hp, -, -, -⟩
  dsimp only at hp ⊢
  cases hp with
  | file name path => exact .pure rfl
  | _ => exact looks_fail h _ _

theorem looks_plainNumber (hv : Value.Alike ρ v w) :
    Looks ρ Eq (plainNumber v) (plainNumber w) m m' := by
  apply Looks.bind (Looks.objectOf hv)
  rintro ⟨r, p, start, stop, k⟩ ⟨q, p', start', stop', k'⟩ ⟨-, -, -, hp, -, -, -⟩
  dsimp only at hp ⊢
  cases hp with
  | number i => exact .pure rfl
  | text s => exact .pure rfl
  | null => exact .pure rfl
  | _ => exact .fault _

theorem inStep_shared {i : Nat} (hi : i < 4) :
    InStep ρ Relates.value (Pure.pure (.object ⟨i⟩)) (Pure.pure (.object ⟨i⟩)) m m' :=
  .intro fun hm => .pure (.object (hm.store.shared i hi))

theorem inStep_null :
    InStep ρ Relates.value (Pure.pure nullValue) (Pure.pure nullValue) m m' :=
  inStep_shared (by decide)

theorem inStep_zero :
    InStep ρ Relates.value (Pure.pure zeroValue) (Pure.pure zeroValue) m m' :=
  inStep_shared (by decide)

theorem inStep_truth (x : Bool) :
    InStep ρ Relates.value (Pure.pure (truthValue x)) (Pure.pure (truthValue x)) m m' := by
  cases x with
  | false => exact inStep_shared (i := 2) (by decide)
  | true => exact inStep_shared (i := 3) (by decide)

theorem inStep_number (i : Number) :
    InStep ρ Relates.value (number i) (number i) m m' := .make (.number i)

theorem inStep_text (s : String) :
    InStep ρ Relates.value (text s) (text s) m m' := .make (.text s)

theorem inStep_isKind (p : Payload → Bool) (hp : ∀ x y, Payload.Alike ρ x y → p y = p x)
    (hr : ρ.objects r q) : InStep ρ Relates.value (isKind r p) (isKind q p) m m' := by
  apply InStep.look (Looks.object hr)
  intro o o' ho
  rw [hp _ _ ho.payload]
  exact inStep_truth _

theorem inStep_print (hr : ρ.objects r q) :
    InStep ρ Relates.value (print r) (print q) m m' := by
  have hwrite (s : String) : InStep ρ Relates.value
      (do modifyWorld (·.write (s ++ "\n")); return nullValue)
      (do modifyWorld (·.write (s ++ "\n")); return nullValue) m m' := by
    apply InStep.bind (InStep.modifyWorld _)
    intro ρ' _ _ t t' _ _
    exact inStep_null
  have hshown : InStep ρ Relates.value
      (do modifyWorld (·.write ((← shown (.object r)) ++ "\n")); return nullValue)
      (do modifyWorld (·.write ((← shown (.object q)) ++ "\n")); return nullValue) m m' := by
    apply InStep.lookSame (Looks.shown (.object hr))
    intro s
    exact hwrite s
  apply InStep.look (Looks.object hr)
  rintro ⟨p, start, stop, k⟩ ⟨p', start', stop', k'⟩ ⟨hp, -, -, -⟩
  dsimp only at hp ⊢
  cases hp with
  | text s => exact hwrite s
  | _ => exact hshown

theorem inStep_gets (hr : ρ.objects r q) : InStep ρ Relates.value (gets r) (gets q) m m' := by
  apply InStep.lookSame (Looks.written (.object hr))
  intro prompt
  apply InStep.bind (InStep.modifyWorld _)
  intro ρ' _ _ t t' _ _
  apply InStep.lookSame Looks.world
  intro w
  dsimp only
  split
  · exact .fault _
  · apply InStep.bind (InStep.modifyWorld _)
    intro ρ'' _ _ u u' _ _
    split
    · exact .fault _
    · exact inStep_text _

theorem inStep_append (h : Alike ρ n c c') (ha : ρ.objects a a') (hb : ρ.objects b b') :
    InStep ρ Relates.value (c.append a b) (c'.append a' b') m m' := by
  apply InStep.look (Looks.object ha)
  rintro ⟨p, start, stop, k⟩ ⟨p', start', stop', k'⟩ ⟨hp, -, -, -⟩
  dsimp only at hp ⊢
  cases hp with
  | list hc =>
    apply InStep.bind (InStep.updateList hc fun _ _ h => forall₂_push h (.object hb))
    intro ρ' _ _ t t' hg _
    exact .pure (.object (hg.objects hb))
  | text s =>
    apply InStep.lookSame (looks_plainNumber (.object hb))
    intro i
    cases i with
    | text t => exact inStep_text _
    | _ => exact .fault _
  | _ => exact inStep_fail h _ _

theorem inStep_pop (h : Alike ρ m.store.tables.size c c') (ha : ρ.objects a a')
    (hb : ρ.objects b b') : InStep ρ Relates.value (c.pop a b) (c'.pop a' b') m m' := by
  apply InStep.look (looks_listArg h ha _)
  intro cells cells' hcells
  apply InStep.lookSame (looks_numberArg h hb _)
  intro i
  apply InStep.bind (Operator.inStep_takeElement hcells i)
  intro ρ' taken taken' t t' hg htaken
  cases htaken with
  | some hv => exact .pure hv
  | none => exact inStep_fail (h.mono hg.toSub hg.tables) _ _

theorem inStep_extend (h : Alike ρ n c c') (ha : ρ.objects a a') (hb : ρ.objects b b') :
    InStep ρ Relates.value (c.extend a b) (c'.extend a' b') m m' := by
  apply InStep.look (looks_listArg h ha _)
  intro target target' htarget
  apply InStep.look (looks_listArg h hb _)
  intro source source' hsource
  apply InStep.look (Looks.elements hsource)
  intro vs ws hvs
  apply InStep.bind (InStep.updateList htarget fun _ _ h => forall₂_append h hvs)
  intro ρ' _ _ t t' _ _
  exact inStep_null

theorem inStep_replace {d d' : ObjectRef} (h : Alike ρ n c c') (ha : ρ.objects a a')
    (hb : ρ.objects b b') (hd : ρ.objects d d') :
    InStep ρ Relates.value (c.replace a b d) (c'.replace a' b' d') m m' := by
  apply InStep.lookSame (looks_textArg h ha _)
  intro s
  apply InStep.lookSame (looks_textArg h hb _)
  intro old
  apply InStep.lookSame (looks_textArg h hd _)
  intro new
  exact inStep_text _

theorem inStep_len (h : Alike ρ n c c') (hr : ρ.objects r q) :
    InStep ρ Relates.value (c.len r) (c'.len q) m m' := by
  apply InStep.look (Looks.object hr)
  rintro ⟨p, start, stop, k⟩ ⟨p', start', stop', k'⟩ ⟨hp, -, -, -⟩
  dsimp only at hp ⊢
  cases hp with
  | list hc =>
    apply InStep.look (Looks.elements hc)
    intro vs ws hvs
    rw [forall₂_size hvs]
    exact inStep_number _
  | text s => exact inStep_number _
  | _ => exact inStep_fail h _ _

theorem looks_plainTexts {vs ws : List Value} (h : List.Forall₂ (Value.Alike ρ) vs ws) :
    Looks ρ Eq (plainTexts vs) (plainTexts ws) m m' := by
  induction h with
  | nil => exact .pure rfl
  | cons hv _ ih =>
    apply Looks.bind (looks_plainNumber hv)
    rintro i _ rfl
    apply Looks.bind (Looks.lift _)
    rintro t _ rfl
    apply Looks.bind ih
    rintro ts _ rfl
    exact .pure rfl

theorem inStep_join (h : Alike ρ n c c') (ha : ρ.objects a a') (hb : ρ.objects b b') :
    InStep ρ Relates.value (c.join a b) (c'.join a' b') m m' := by
  apply InStep.lookSame (looks_textArg h ha _)
  intro sep
  apply InStep.look (Looks.object hb)
  rintro ⟨p, start, stop, k⟩ ⟨p', start', stop', k'⟩ ⟨hp, -, -, -⟩
  dsimp only at hp ⊢
  cases hp with
  | list hc =>
    apply InStep.look (Looks.elements hc)
    intro vs ws hvs
    apply InStep.lookSame (looks_plainTexts hvs)
    intro ts
    exact inStep_text _
  | text s => exact inStep_text _
  | _ => exact inStep_fail h _ _

theorem inStep_texts (ts : List String) :
    InStep ρ Relates.values (ts.mapM text) (ts.mapM text) m m' := by
  induction ts generalizing ρ m m' with
  | nil => exact .pure .nil
  | cons t ts ih =>
    rw [List.mapM_cons]
    apply InStep.bind (inStep_text t)
    intro ρ' v w u u' _ hv
    apply InStep.bind ih
    intro ρ'' vs ws x x' hg hvs
    exact .pure (.cons (hv.mono hg.toSub) hvs)

theorem inStep_split (h : Alike ρ n c c') (ha : ρ.objects a a') (hb : ρ.objects b b') :
    InStep ρ Relates.value (c.split a b) (c'.split a' b') m m' := by
  apply InStep.lookSame (looks_textArg h ha _)
  intro s
  apply InStep.lookSame (looks_textArg h hb _)
  intro sep
  apply InStep.bind (inStep_texts _)
  intro ρ' vs ws t t' _ hvs
  apply InStep.bind (InStep.allocateList hvs)
  intro ρ'' cells cells' u u' _ hcells
  exact .make (.list hcells)

theorem inStep_openFile (h : Alike ρ n c c') (hr : ρ.objects r q) :
    InStep ρ Relates.value (c.openFile r) (c'.openFile q) m m' := by
  apply InStep.lookSame (looks_textArg h hr _)
  intro path
  exact .make (.file _ _)

theorem inStep_readStream (h : Alike ρ n c c') (hr : ρ.objects r q) :
    InStep ρ Relates.value (c.readStream r) (c'.readStream q) m m' := by
  apply InStep.lookSame (looks_fileArg h hr _)
  intro path
  apply InStep.lookSame Looks.world
  intro w
  cases w.readText path with
  | ok s => exact inStep_text s
  | error e => exact inStep_fail h _ _

theorem inStep_writeStream (h : Alike ρ n c c') (ha : ρ.objects a a') (hb : ρ.objects b b') :
    InStep ρ Relates.value (c.writeStream a b) (c'.writeStream a' b') m m' := by
  apply InStep.lookSame (looks_fileArg h ha _)
  intro path
  apply InStep.lookSame (looks_textArg h hb _)
  intro added
  apply InStep.lookSame Looks.world
  intro w
  cases w.files.append w.cwd path added with
  | ok files =>
    apply InStep.bind (InStep.modifyWorld _)
    intro ρ' _ _ t t' _ _
    exact inStep_zero
  | error e => exact inStep_fail h _ _

theorem inStep_fileExists (h : Alike ρ n c c') (hr : ρ.objects r q) :
    InStep ρ Relates.value (c.fileExists r) (c'.fileExists q) m m' := by
  have hexists (path : String) : InStep ρ Relates.value
      (do let w ← world; return truthValue (w.files.exists? w.cwd path))
      (do let w ← world; return truthValue (w.files.exists? w.cwd path)) m m' := by
    apply InStep.lookSame Looks.world
    intro w
    exact inStep_truth _
  apply InStep.look (Looks.object hr)
  rintro ⟨p, start, stop, k⟩ ⟨p', start', stop', k'⟩ ⟨hp, -, -, -⟩
  dsimp only at hp ⊢
  cases hp with
  | text s => exact hexists s
  | file name path => exact hexists path
  | _ => exact inStep_fail h _ _

theorem inStep_getEnv (h : Alike ρ n c c') (hr : ρ.objects r q) :
    InStep ρ Relates.value (c.getEnv r) (c'.getEnv q) m m' := by
  apply InStep.lookSame (looks_textArg h hr _)
  intro name
  apply InStep.lookSame Looks.world
  intro w
  cases w.environment.lookup name with
  | some s => exact inStep_text s
  | none => exact inStep_fail h _ _

theorem inStep_setEnv (h : Alike ρ n c c') (ha : ρ.objects a a') (hb : ρ.objects b b') :
    InStep ρ Relates.value (c.setEnv a b) (c'.setEnv a' b') m m' := by
  apply InStep.lookSame (looks_textArg h ha _)
  intro name
  apply InStep.lookSame (looks_textArg h hb _)
  intro value
  cases environmentProblem? name value with
  | some problem => exact inStep_fail h _ _
  | none =>
    apply InStep.bind (InStep.modifyWorld _)
    intro ρ' _ _ t t' _ _
    exact inStep_null

theorem inStep_getDir : InStep ρ Relates.value getDir getDir m m' := by
  apply InStep.lookSame Looks.world
  intro w
  exact inStep_text _

theorem inStep_setDir (h : Alike ρ n c c') (hr : ρ.objects r q) :
    InStep ρ Relates.value (c.setDir r) (c'.setDir q) m m' := by
  apply InStep.lookSame (looks_textArg h hr _)
  intro name
  apply InStep.lookSame Looks.world
  intro w
  dsimp only
  split
  · apply InStep.bind (InStep.modifyWorld _)
    intro ρ' _ _ t t' _ _
    exact inStep_null
  · exact inStep_fail h _ _
  · exact inStep_fail h _ _

theorem inStep_sleep (h : Alike ρ n c c') (hr : ρ.objects r q) :
    InStep ρ Relates.value (c.sleep r) (c'.sleep q) m m' := by
  apply InStep.lookSame (looks_numberArg h hr _)
  intro seconds
  apply InStep.lookSame Looks.world
  intro w
  apply InStep.lookSame (Looks.lift _)
  intro _
  apply InStep.lookSame (Looks.lift _)
  intro amount
  apply InStep.bind (InStep.modifyWorld _)
  intro ρ' _ _ t t' _ _
  exact inStep_null

theorem inStep_sys (h : Alike ρ n c c') (hr : ρ.objects r q) :
    InStep ρ Relates.value (c.sys r) (c'.sys q) m m' := by
  apply InStep.lookSame (looks_textArg h hr _)
  intro command
  dsimp only
  split
  · exact inStep_fail h _ _
  · apply InStep.bind (InStep.modifyWorld _)
    intro ρ' _ _ t t' _ _
    exact inStep_null

theorem inStep_helpFor (h : Alike ρ n c c') (hr : ρ.objects r q) :
    InStep ρ Relates.value (c.helpFor r) (c'.helpFor q) m m' := by
  apply InStep.lookSame (looks_textArg h hr _)
  intro name
  split
  · exact inStep_text _
  · split
    · exact .fault _
    · cases Help.topics.lookup name with
      | some topic => exact inStep_text _
      | none => exact .fault _

theorem inStep_random : InStep ρ Relates.value random random m m' := by
  apply InStep.lookSame Looks.world
  intro w
  apply InStep.bind (InStep.modifyWorld _)
  intro ρ' _ _ t t' _ _
  exact inStep_number _

theorem inStep_randInt (h : Alike ρ n c c') (ha : ρ.objects a a') (hb : ρ.objects b b') :
    InStep ρ Relates.value (c.randInt a b) (c'.randInt a' b') m m' := by
  apply InStep.lookSame (looks_numberArg h ha _)
  intro low
  apply InStep.lookSame (looks_numberArg h hb _)
  intro high
  apply InStep.lookSame Looks.world
  intro w
  apply InStep.lookSame (Looks.lift _)
  rintro ⟨i, state⟩
  apply InStep.bind (InStep.modifyWorld _)
  intro ρ' _ _ t t' _ _
  exact inStep_number _

theorem inStep_randSeed (h : Alike ρ n c c') (hr : ρ.objects r q) :
    InStep ρ Relates.value (c.randSeed r) (c'.randSeed q) m m' := by
  apply InStep.lookSame (looks_numberArg h hr _)
  intro seed
  apply InStep.lookSame Looks.world
  intro w
  apply InStep.lookSame (Looks.lift _)
  intro state
  apply InStep.bind (InStep.modifyWorld _)
  intro ρ' _ _ t t' _ _
  exact inStep_null

theorem inStep_randPick (h : Alike ρ n c c') (hr : ρ.objects r q) :
    InStep ρ Relates.value (c.randPick r) (c'.randPick q) m m' := by
  apply InStep.look (looks_listArg h hr _)
  intro cells cells' hcells
  apply InStep.look (Looks.elements hcells)
  intro vs ws hvs
  have hempty : ws.isEmpty = vs.isEmpty := by
    rw [Array.isEmpty, Array.isEmpty, forall₂_size hvs]
  rw [hempty, forall₂_size hvs]
  dsimp only
  split
  · exact inStep_fail h _ _
  · apply InStep.lookSame Looks.world
    intro w
    apply InStep.lookSame (Looks.lift _)
    rintro ⟨i, state⟩
    apply InStep.bind (InStep.modifyWorld _)
    intro ρ' _ _ t t' hg _
    apply InStep.pure
    have hpicked := forall₂_getElem? hvs i.toNat
    rw [Array.getElem?_toList, Array.getElem?_toList] at hpicked
    generalize vs[i.toNat]? = picked at hpicked ⊢
    generalize ws[i.toNat]? = picked' at hpicked ⊢
    cases hpicked with
    | some hv => exact hv.mono hg.toSub
    | none => exact .absent

theorem looks_lenience (h : Alike ρ n c c') (hr : ρ.objects r q) (name : String) :
    Looks ρ Eq (c.lenience r name) (c'.lenience q name) m m' := by
  apply Looks.bind (looks_numberArg h hr _)
  rintro i _ rfl
  split
  · exact .pure rfl
  · split
    · exact .pure rfl
    · exact looks_fail h _ _

theorem inStep_convert (h : Alike ρ n c c') (ha : ρ.objects a a') (hb : ρ.objects b b')
    (name target : String) (ofNumber : Number → Except Fault Number)
    (ofText : String → Except Fault Number) :
    InStep ρ Relates.value (c.convert name target ofNumber ofText a b)
      (c'.convert name target ofNumber ofText a' b') m m' := by
  apply InStep.lookSame (looks_lenience h hb name)
  intro lenient
  have hother : InStep ρ Relates.value
      (if lenient then Pure.pure zeroValue else do
        let kind ← kindName (.object a)
        c.fail s!"Failed to convert value of type '{kind}' to {target}")
      (if lenient then Pure.pure zeroValue else do
        let kind ← kindName (.object a')
        c'.fail s!"Failed to convert value of type '{kind}' to {target}") m m' := by
    split
    · exact inStep_zero
    · apply InStep.lookSame (Looks.kindName (.object ha))
      intro kind
      exact inStep_fail h _ _
  apply InStep.look (Looks.object ha)
  rintro ⟨p, start, stop, k⟩ ⟨p', start', stop', k'⟩ ⟨hp, -, -, -⟩
  dsimp only at hp ⊢
  cases hp with
  | number i =>
    apply InStep.lookSame (Looks.lift _)
    intro j
    exact inStep_number j
  | text s =>
    dsimp only
    cases ofText s with
    | ok i => exact inStep_number i
    | error e =>
      dsimp only
      split
      · exact inStep_zero
      · exact inStep_fail h _ _
  | _ => exact hother

/-- Every function of the language goes in step on arguments that are paired. -/
theorem inStep_perform (h : Alike ρ m.store.tables.size c c') (x : Builtin)
    {as as' : List ObjectRef} (has : List.Forall₂ ρ.objects as as') :
    InStep ρ Relates.value (c.perform x as) (c'.perform x as') m m' := by
  rcases has with _ | ⟨ha, _ | ⟨hb, _ | ⟨hd, _ | _⟩⟩⟩
  · cases x with
    | clear =>
      apply InStep.bind (InStep.modifyWorld _)
      intro ρ' _ _ t t' _ _
      exact inStep_null
    | getNow =>
      apply InStep.lookSame Looks.world
      intro w
      exact inStep_number _
    | getDir => exact inStep_getDir
    | random => exact inStep_random
    | help => exact inStep_text _
    | version => exact inStep_text _
    | _ => exact .fault _
  · cases x with
    | print => exact inStep_print ha
    | gets => exact inStep_gets ha
    | typeOf =>
      apply InStep.lookSame (Looks.kindName (.object ha))
      intro kind
      exact inStep_text kind
    | isNumber | isString | isList | isFunction =>
      apply inStep_isKind _ _ ha
      intro p p' hp
      cases hp <;> rfl
    | tostr =>
      apply InStep.lookSame (Looks.written (.object ha))
      intro s
      exact inStep_text s
    | len => exact inStep_len h ha
    | sleep => exact inStep_sleep h ha
    | openFile => exact inStep_openFile h ha
    | readStream => exact inStep_readStream h ha
    | fileExists => exact inStep_fileExists h ha
    | getEnv => exact inStep_getEnv h ha
    | setDir => exact inStep_setDir h ha
    | randSeed => exact inStep_randSeed h ha
    | randPick => exact inStep_randPick h ha
    | helpFor => exact inStep_helpFor h ha
    | sys => exact inStep_sys h ha
    | error =>
      apply InStep.lookSame (looks_textArg h ha _)
      intro message
      exact inStep_fail h _ _
    | _ => exact .fault _
  · cases x with
    | append => exact inStep_append h ha hb
    | pop => exact inStep_pop h ha hb
    | extend => exact inStep_extend h ha hb
    | writeStream => exact inStep_writeStream h ha hb
    | setEnv => exact inStep_setEnv h ha hb
    | randInt => exact inStep_randInt h ha hb
    | toint => exact inStep_convert h ha hb _ _ _ _
    | tofloat => exact inStep_convert h ha hb _ _ _ _
    | join => exact inStep_join h ha hb
    | split => exact inStep_split h ha hb
    | _ => exact .fault _
  · cases x with
    | replace => exact inStep_replace h ha hb hd
    | _ => exact .fault _
  · cases x <;> exact .fault _

end BuiltinCall

end Think
