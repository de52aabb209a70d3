import Think.Proofs.Eval.Builtins
import Think.Proofs.Eval.Course

/-! # What leaves lists and files alone

Operators on anything but lists, and the functions of the language but for six of them, make objects
and change the world, but they touch no storage of a list and no file. What is said of both is said
of any view of a machine that shows no objects and nothing else of the world.
-/

namespace Think

namespace Eval

variable {α β γ : Type} {view : Machine → γ} {x : Eval α} {k : α → Eval β}

/-- The evaluation leaves what the view shows of the machine as it is. -/
def Spares (view : Machine → γ) (x : Eval α) : Prop := ∀ m, view (x m).2 = view m

class Blind (view : Machine → γ) : Prop where
  objects : ∀ (s : Store) (objects : Array Object) (w : World),
    view ⟨{ s with objects }, w⟩ = view ⟨s, w⟩
  world : ∀ (s : Store) (w w' : World), w'.disk = w.disk → view ⟨s, w'⟩ = view ⟨s, w⟩

instance : Blind fun m => m.store.lists where
  objects _ _ _ := rfl
  world _ _ _ _ := rfl

instance : Blind fun m => m.world.disk where
  objects _ _ _ := rfl
  world _ _ _ h := h

@[simp]
theorem Still.spares (h : Still x) : Spares view x := fun m => by rw [h m]

namespace Still

@[simp]
theorem shown (v : Value) : Still (Eval.shown v) := by
  simp [Eval.shown]

@[simp]
theorem kindName (v : Value) : Still (Eval.kindName v) := by
  apply bind (objectOf v)
  rintro ⟨_, o⟩
  dsimp only
  split <;> simp

@[simp]
theorem fail (c : BuiltinCall) (details : String) : Still (c.fail details : Eval α) :=
  error _ _ _ _

@[simp]
theorem numberArg (c : BuiltinCall) (r : ObjectRef) (otherwise : String) :
    Still (c.numberArg r otherwise) := by
  apply bind (object r)
  intro o
  split <;> simp

@[simp]
theorem listArg (c : BuiltinCall) (r : ObjectRef) (otherwise : String) :
    Still (c.listArg r otherwise) := by
  apply bind (object r)
  intro o
  split <;> simp

@[simp]
theorem fileArg (c : BuiltinCall) (r : ObjectRef) (otherwise : String) :
    Still (c.fileArg r otherwise) := by
  apply bind (object r)
  intro o
  split <;> simp

@[simp]
theorem payload? (v : Value) : Still (Operator.payload? v) := by
  cases v <;> simp [Operator.payload?]

@[simp]
theorem illegal (r : ObjectRef) (v : Value) (reason : String) :
    Still (Operator.illegal r v reason : Eval α) := by
  apply bind (object r)
  intro o
  apply bind store
  intro s
  split <;> simp

@[simp]
theorem illegalKind (r : ObjectRef) (v : Value) (action : String) :
    Still (Operator.illegalKind r v action : Eval α) :=
  bind (kindName v) fun _ => illegal _ _ _

@[simp]
theorem errorAtRight (r : ObjectRef) (v : Value) (details : String) :
    Still (Operator.errorAtRight r v details : Eval α) := by
  apply bind (object r)
  simp

end Still

namespace Spares

@[simp]
theorem bind (hx : Spares view x) (hk : ∀ a, Spares view (k a)) : Spares view (x >>= k) := by
  intro m
  have hview := hx m
  rcases hm : x m with ⟨e | a, m'⟩
  · rw [hm] at hview
    rwa [bind_error hm]
  · rw [hm] at hview
    rw [bind_ok hm, hk a, hview]

@[simp]
theorem map (hx : Spares view x) (f : α → β) : Spares view (f <$> x) := by
  rw [← bind_pure_comp]
  exact hx.bind fun a => (Still.pure (f a)).spares

theorem look (hx : Still x) (hk : ∀ a, Spares view (k a)) : Spares view (x >>= k) :=
  bind hx.spares hk

variable [Blind view]

@[simp]
theorem allocate (o : Object) : Spares view (Eval.allocate o) := fun m =>
  Blind.objects m.store _ m.world

@[simp]
theorem make (p : Payload) : Spares view (Eval.make p) := (allocate _).map Value.object

theorem modifyWorld {f : World → World} (hf : ∀ w, (f w).disk = w.disk) :
    Spares view (Eval.modifyWorld f) := fun m => Blind.world m.store _ _ (hf m.world)

@[simp]
theorem record (e : Think.Event) : Spares view (Eval.modifyWorld (·.record e)) :=
  modifyWorld fun _ => rfl

@[simp]
theorem place (r : ObjectRef) (span : Span) : Spares view (Eval.place r span) := fun m =>
  Blind.objects m.store _ m.world

@[simp]
theorem result (r : ObjectRef) (p : Payload) : Spares view (Operator.result r p) :=
  .look (.object r) fun _ => .map (.allocate _) _

end Spares

theorem spares_placed [Blind view] (span : Span) (a : Answer) : Spares view (placed span a) := by
  cases a with
  | truth b => simp [placed]
  | value v =>
    refine .look (.objectOf v) fun _ => ?_
    exact .bind (.place _ span) fun _ => by simp

end Eval

namespace Operator

open Eval

variable {γ : Type} {view : Machine → γ} [Blind view]

theorem spares_onNumber (op : BinaryOp) (l : ObjectRef) (a : Number) (v : Value) :
    Spares view (onNumber op l a v) := by
  refine .look (.payload? v) fun other => ?_
  split
  · split
    · simp
    · exact .look (.lift _) fun _ => by simp
  · simp

theorem spares_onText (op : BinaryOp) (l : ObjectRef) (a : String) (v : Value) :
    Spares view (onText op l a v) := by
  refine .look (.payload? v) fun other => ?_
  split
  case h_3 => exact .look (.lift _) fun _ => by simp
  case h_11 =>
    dsimp only
    split <;> simp
  case h_12 => exact .look (.shown v) fun _ => by simp
  all_goals simp [unknown]

theorem still_onFile (op : BinaryOp) (l : ObjectRef) (path : String) (v : Value) :
    Still (onFile op l path v) := by
  unfold onFile
  split
  · apply Still.bind (.payload? v)
    intro other
    split <;> simp
  · simp [unknown]

theorem spares_negate (r : ObjectRef) : Spares view (negate r) := by
  refine .look (.object r) fun o => ?_
  split <;> simp

end Operator

def Builtin.editsLists : Builtin → Bool
  | .append | .extend | .pop | .split => true
  | _ => false

def Builtin.editsDisk : Builtin → Bool
  | .writeStream | .setDir => true
  | _ => false

namespace BuiltinCall

open Eval

variable {γ : Type} {view : Machine → γ} [Blind view] (c : BuiltinCall)

@[simp]
theorem spares_number (n : Number) : Spares view (number n) := .make _

@[simp]
theorem spares_text (s : String) : Spares view (text s) := .make _

@[simp]
theorem still_isKind (r : ObjectRef) (p : Payload → Bool) : Still (isKind r p) := by
  simp [isKind]

@[simp]
theorem spares_print (r : ObjectRef) : Spares view (print r) := by
  refine .look (.object r) fun o => ?_
  split
  · exact .look (.pure _) fun _ => .bind (.modifyWorld fun _ => rfl) fun _ => by simp
  · exact .look (.shown _) fun _ => .bind (.modifyWorld fun _ => rfl) fun _ => by simp

@[simp]
theorem spares_gets (r : ObjectRef) : Spares view (gets r) := by
  refine .look (.written _) fun prompt => .bind (.modifyWorld fun _ => rfl) fun _ => ?_
  refine .look .world fun w => ?_
  dsimp only
  split
  · simp
  · refine .bind (.modifyWorld fun _ => rfl) fun _ => ?_
    split <;> simp

@[simp]
theorem spares_replace (s old new : ObjectRef) : Spares view (c.replace s old new) :=
  .look (.textArg c s _) fun _ => .look (.textArg c old _) fun _ =>
    .look (.textArg c new _) fun _ => by simp

@[simp]
theorem spares_len (r : ObjectRef) : Spares view (c.len r) := by
  refine .look (.object r) fun o => ?_
  split
  · exact .look (.elements _) fun _ => by simp
  · simp
  · simp

@[simp]
theorem spares_sleep (r : ObjectRef) : Spares view (c.sleep r) :=
  .look (.numberArg c r _) fun _ => .look .world fun _ => .look (.lift _) fun _ =>
    .look (.lift _) fun _ => .bind (.modifyWorld fun _ => rfl) fun _ => by simp

@[simp]
theorem spares_openFile (r : ObjectRef) : Spares view (c.openFile r) :=
  .look (.textArg c r _) fun _ => by simp

@[simp]
theorem spares_readStream (r : ObjectRef) : Spares view (c.readStream r) := by
  refine .look (.fileArg c r _) fun path => .look .world fun w => ?_
  split <;> simp

@[simp]
theorem still_fileExists (r : ObjectRef) : Still (c.fileExists r) := by
  apply Still.bind (.object r)
  intro o
  split <;> simp

@[simp]
theorem spares_getEnv (r : ObjectRef) : Spares view (c.getEnv r) := by
  refine .look (.textArg c r _) fun name => .look .world fun w => ?_
  split <;> simp

@[simp]
theorem spares_setEnv (name value : ObjectRef) : Spares view (c.setEnv name value) := by
  refine .look (.textArg c name _) fun name => .look (.textArg c value _) fun value => ?_
  split
  · simp
  · exact .bind (.modifyWorld fun _ => rfl) fun _ => by simp

@[simp]
theorem spares_getDir : Spares view getDir := .look .world fun _ => by simp

@[simp]
theorem spares_random : Spares view random := by
  refine .look .world fun w => ?_
  rcases Random.unit w.random with ⟨x, state⟩
  exact .bind (.modifyWorld fun _ => rfl) fun _ => by simp

@[simp]
theorem spares_randInt (low high : ObjectRef) : Spares view (c.randInt low high) :=
  .look (.numberArg c low _) fun _ => .look (.numberArg c high _) fun _ => .look .world fun _ =>
    .look (.lift _) fun _ => .bind (.modifyWorld fun _ => rfl) fun _ => by simp

@[simp]
theorem spares_randSeed (r : ObjectRef) : Spares view (c.randSeed r) :=
  .look (.numberArg c r _) fun _ => .look .world fun _ => .look (.lift _) fun _ =>
    .bind (.modifyWorld fun _ => rfl) fun _ => by simp

@[simp]
theorem spares_randPick (r : ObjectRef) : Spares view (c.randPick r) := by
  refine .look (.listArg c r _) fun cells => .look (.elements _) fun vs => ?_
  dsimp only
  split
  · simp
  · refine .look .world fun _ => .look (.lift _) fun _ => ?_
    exact .bind (.modifyWorld fun _ => rfl) fun _ => by simp

@[simp]
theorem still_lenience (r : ObjectRef) (name : String) : Still (c.lenience r name) := by
  apply Still.bind (.numberArg c r _)
  intro n
  repeat' split
  all_goals simp

@[simp]
theorem spares_convert (name target : String) (ofNumber : Number → Except Fault Number)
    (ofText : String → Except Fault Number) (value lenient : ObjectRef) :
    Spares view (c.convert name target ofNumber ofText value lenient) := by
  refine .look (c.still_lenience _ _) fun lenient => .look (.object value) fun o => ?_
  split
  · exact .look (.lift _) fun _ => by simp
  · split
    · simp
    · split <;> simp
  · split
    · simp
    · exact .look (.kindName _) fun _ => by simp

@[simp]
theorem still_plainTexts (vs : List Value) : Still (plainTexts vs) := by
  induction vs with
  | nil => exact .pure _
  | cons v vs ih => exact .bind (.plainNumber v) fun _ => .bind (.lift _) fun _ => by simp [ih]

@[simp]
theorem spares_join (sep parts : ObjectRef) : Spares view (c.join sep parts) := by
  refine .look (.textArg c sep _) fun sep => .look (.object parts) fun o => ?_
  split
  · exact .look (.elements _) fun _ => .look (still_plainTexts _) fun _ => by simp
  · simp
  · simp

@[simp]
theorem spares_helpFor (r : ObjectRef) : Spares view (c.helpFor r) := by
  refine .look (.textArg c r _) fun name => ?_
  repeat' split
  all_goals simp

@[simp]
theorem spares_sys (r : ObjectRef) : Spares view (c.sys r) := by
  refine .look (.textArg c r _) fun command => ?_
  dsimp only
  split
  · simp
  · exact .bind (.modifyWorld fun _ => rfl) fun _ => by simp

theorem spares_texts (ts : List String) : Spares view (ts.mapM text) := by
  induction ts with
  | nil => simp
  | cons t ts ih =>
    rw [List.mapM_cons]
    exact .bind (spares_text t) fun _ => .bind ih fun _ => by simp

theorem spares_writeStream (file added : ObjectRef) :
    Spares (·.store.lists) (c.writeStream file added) := by
  refine .look (.fileArg c file _) fun path => .look (.textArg c added _) fun added => ?_
  refine .look .world fun w => ?_
  split
  · exact .bind (fun _ => rfl) fun _ => by simp
  · simp

theorem spares_setDir (r : ObjectRef) : Spares (·.store.lists) (c.setDir r) := by
  refine .look (.textArg c r _) fun name => .look .world fun w => ?_
  dsimp only
  split
  · exact .bind (fun _ => rfl) fun _ => by simp
  · simp
  · simp

theorem spares_lists_perform {b : Builtin} (hb : b.editsLists = false) (refs : List ObjectRef) :
    Spares (·.store.lists) (c.perform b refs) := by
  fun_cases perform c b refs <;>
    first
    | exact absurd hb (by decide)
    | simp [toint, tofloat, spares_writeStream, spares_setDir]

end BuiltinCall

namespace Operator

open Eval

theorem spares_disk_copy (r : ObjectRef) : Spares (·.world.disk) (copy r) := by
  refine .look (.object r) fun o => ?_
  split <;> simp

theorem spares_disk_takeElement (cells : ListRef) (n : Number) :
    Spares (·.world.disk) (takeElement cells n) := by
  refine .look (.elements cells) fun vs => ?_
  dsimp only
  split
  · exact .bind (fun _ => rfl) fun _ => by simp
  · simp

theorem spares_disk_onList (op : BinaryOp) (l : ObjectRef) (cells : ListRef) (v : Value) :
    Spares (·.world.disk) (onList op l cells v) := by
  refine .look (.payload? v) fun other => ?_
  split
  case h_1 => exact .bind (spares_disk_copy l) fun _ => .bind (fun _ => rfl) fun _ => by simp
  case h_2 =>
    refine .bind (spares_disk_copy l) fun _ =>
      .bind (spares_disk_takeElement cells _) fun taken => ?_
    split <;> simp
  case h_4 =>
    refine .bind (spares_disk_copy l) fun _ => .look (.elements _) fun added => ?_
    exact .bind (fun _ => rfl) fun _ => by simp
  case h_6 =>
    refine .look (.elements _) fun vs => ?_
    split <;> simp
  all_goals simp [unknown]

theorem spares_disk_binary (op : BinaryOp) (l : ObjectRef) (v : Value) :
    Spares (·.world.disk) (binary op l v) := by
  refine .look (.object l) fun o => ?_
  split
  · exact spares_onNumber op l _ v
  · exact spares_onText op l _ v
  · exact spares_disk_onList op l _ v
  · exact (still_onFile op l _ v).spares
  · split <;> simp [unknown]
  · simp [unknown]

end Operator

namespace Eval

theorem spares_disk_binary (op : BinaryOp) (span : Span) (l r : Value) :
    Spares (·.world.disk) (binary op span l r) :=
  .look (.objectOf l) fun _ => .bind (Operator.spares_disk_binary op _ r) (spares_placed span)

theorem spares_disk_unary (op : UnaryOp) (span : Span) (v : Value) :
    Spares (·.world.disk) (unary op span v) := by
  refine .look (.objectOf v) fun _ => ?_
  cases op with
  | plus => exact spares_placed span _
  | minus =>
    refine .bind (.make _) fun _ => ?_
    exact .bind (Operator.spares_disk_binary _ _ _) (spares_placed span)
  | not => exact .bind (Operator.spares_negate _) (spares_placed span)

end Eval

namespace BuiltinCall

open Eval

variable (c : BuiltinCall)

theorem spares_disk_append (target value : ObjectRef) :
    Spares (·.world.disk) (c.append target value) := by
  refine .look (.object target) fun o => ?_
  split
  · exact .bind (fun _ => rfl) fun _ => by simp
  · refine .look (.plainNumber _) fun n => ?_
    split <;> simp
  · simp

theorem spares_disk_pop (list index : ObjectRef) : Spares (·.world.disk) (c.pop list index) := by
  refine .look (.listArg c list _) fun cells => .look (.numberArg c index _) fun n => ?_
  refine .bind (Operator.spares_disk_takeElement cells n) fun taken => ?_
  split <;> simp

theorem spares_disk_extend (a b : ObjectRef) : Spares (·.world.disk) (c.extend a b) := by
  refine .look (.listArg c a _) fun target => .look (.listArg c b _) fun source => ?_
  exact .look (.elements _) fun _ => .bind (fun _ => rfl) fun _ => by simp

theorem spares_disk_split (s sep : ObjectRef) : Spares (·.world.disk) (c.split s sep) := by
  refine .look (.textArg c s _) fun s => .look (.textArg c sep _) fun sep => ?_
  exact .bind (spares_texts _) fun pieces => .bind (fun _ => rfl) fun cells => by simp

theorem spares_disk_perform {b : Builtin} (hb : b.editsDisk = false) (refs : List ObjectRef) :
    Spares (·.world.disk) (c.perform b refs) := by
  fun_cases perform c b refs <;>
    first
    | exact absurd hb (by decide)
    | simp [toint, tofloat, spares_disk_append, spares_disk_pop, spares_disk_extend,
        spares_disk_split]

end BuiltinCall

end Think
