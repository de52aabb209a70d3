import Think.Proofs.Eval.ListStore
import Think.Proofs.Eval.Writing

/-! # Functions on all kinds of arguments

Which functions of the language break down on which arguments. Most of them give a value or report
an error at the call, whatever they are given. The exceptions are listed by `Builtin.fault?`, and a
script that is run breaks down with its own faults.
-/

namespace Think

/-- The fault of naming the kind of a number, if it has one: a complex number has no remainder, and
a text is taken for a template. -/
def Number.kindFault? : Number → Option Fault
  | .int _ | .float _ => none
  | .complex _ _ => some .wrongKind
  | .text t => Fault.of? (Template.fill t (.int 1))

namespace Payload

def text? : Payload → Option String
  | .text s => some s
  | _ => none

def number? : Payload → Option Number
  | .number n => some n
  | _ => none

def list? : Payload → Option ListRef
  | .list cells => some cells
  | _ => none

def plain? : Payload → Option Number
  | .number n => some n
  | .text t => some (.text t)
  | .null => some (.text "null")
  | _ => none

end Payload

namespace World

/-- The fault of drawing from a range, if it has one: a number has to be in it. -/
def rangeFault? (low high : Int) : Option Fault := if high ≤ low then some .badValue else none

/-- The fault of drawing between two numbers, if it has one. Integers need only be in order; other
numbers may be no ends of a range. -/
def betweenFault? : Number → Number → Option Fault
  | .int a, .int b => if b < a then some .badValue else none
  | a, b =>
    match rangeBetween a b with
    | .error f => some f
    | .ok (low, high) => rangeFault? low high

/-- The fault of a wait of so many nanoseconds, if it has one: it may not be negative, and it has to
end before the clock does. -/
def waitFault? (uptime : Nat) (ns : Int) : Option Fault :=
  if ns < 0 then some .badValue
  else if Number.sizeLimit ≤ uptime + ns then some (.stated "[Errno 22] Invalid argument")
  else none

end World

namespace Builtin

def plainFault? (s : Store) (v : Value) (g : Number → Option Fault) : Option Fault :=
  ((s.payload? v).bind Payload.plain?).elim (some .noSuchPart) g

def joinFault? (s : Store) : List Value → Option Fault
  | [] => none
  | v :: rest => plainFault? s v fun n => n.writtenFault? <|> joinFault? s rest

/-- The fault of appending to a text, if it has one: numbers are not written out for it. -/
def appendFault? : Number → Option Fault
  | .text _ => none
  | _ => some .wrongKind

/-- The fault of waiting for a number of seconds, if it has one. They have to be numbers that can be
counted in nanoseconds, which integers can up to 9223372036. -/
def sleepFault? (uptime : Nat) : Number → Option Fault
  | .int n =>
    if 9223372036 < n.natAbs then some .tooLarge else World.waitFault? uptime (n * 1000000000)
  | n =>
    match World.nanoseconds n with
    | .error f => some f
    | .ok ns => World.waitFault? uptime ns

/-- The fault of setting the state of the generator, if it has one. -/
def seedFault? : Number → Option Fault
  | .complex _ _ => some .wrongKind
  | _ => none

/-- The fault of picking from so many values, if it has one. The last of them is never picked. -/
def pickFault? : (count : Nat) → Option Fault
  | 1 => some .badValue
  | _ => none

/-- Whether a number says if a conversion is lenient. -/
def isLenience (n : Number) : Bool := n.isEq (.int 1) || n.isEq (.int 0)

/-- The fault of a conversion, if it has one. Texts and other values are let pass or reported. -/
def conversionFault? (s : Store) (ofNumber : Number → Option Fault) (value lenient : ObjectRef) :
    Option Fault :=
  (s.object lenient).payload.number?.bind fun n =>
    if isLenience n then (s.object value).payload.number?.bind ofNumber else none

def helpFault? (topic : String) : Option Fault :=
  if topic = "" then none
  else if topic = Help.kindsTopic then some .noSuchKey
  else if (Help.topics.lookup topic).isNone then some .noSuchPart
  else none

/-- The fault of a function other than `exit`, `gets` and `run` on as many arguments as it has
parameters, if it has one. -/
def fault? (s : Store) (uptime : Nat) : Builtin → List ObjectRef → Option Fault
  | .print, [a] | .tostr, [a] => (s.snapshot (.object a)).fault?
  | .typeOf, [a] => (s.object a).payload.number?.bind Number.kindFault?
  | .append, [target, value] =>
    (s.object target).payload.text?.bind fun _ => plainFault? s (.object value) appendFault?
  | .sleep, [a] => (s.object a).payload.number?.bind (sleepFault? uptime)
  | .randInt, [a, b] =>
    (s.object a).payload.number?.bind fun low =>
      (s.object b).payload.number?.bind fun high => World.betweenFault? low high
  | .randSeed, [a] => (s.object a).payload.number?.bind seedFault?
  | .randPick, [a] =>
    (s.object a).payload.list?.bind fun cells => pickFault? (s.elements cells).size
  | .toint, [a, b] => conversionFault? s (fun n => Fault.of? n.toInt) a b
  | .tofloat, [a, b] => conversionFault? s (fun n => Fault.of? n.toFloat) a b
  | .join, [sep, parts] =>
    (s.object sep).payload.text?.bind fun _ =>
      (s.object parts).payload.list?.bind fun cells => joinFault? s (s.elements cells).toList
  | .helpFor, [a] => (s.object a).payload.text?.bind helpFault?
  | _, _ => none

end Builtin

namespace Eval

/-- Whether this is how an evaluation ends that has the given fault, if any: with the fault, and
otherwise with a value or a reported error. -/
def Settles {α : Type} (f? : Option Fault) (r : Except Stop α) : Prop :=
  match f? with
  | some f => r = .error (.fault f)
  | none => (∃ a, r = .ok a) ∨ ∃ d, r = .error (.error d)

section

variable {α β : Type} {E : Diagnostic → Store → Prop} {f? : Option Fault} {x : Eval α}
  {k : α → Eval β} {m m' : Machine} {a : α}

theorem settles_of_civil (h : Civil E x) (m : Machine) : Settles none (x m).1 := by
  rcases hx : x m with ⟨e | a, m'⟩
  · obtain ⟨d, rfl, -⟩ := h.stop hx
    exact .inr ⟨d, rfl⟩
  · exact .inl ⟨a, rfl⟩

theorem settles_bind (h : x m = (.ok a, m')) (hk : Settles f? (k a m').1) :
    Settles f? ((x >>= k) m).1 := by
  rwa [bind_ok h]

theorem settles_lift_bind {x : Except Fault α} (hk : ∀ a, Settles f? (k a m).1) :
    Settles (Fault.of? x <|> f?) ((lift x >>= k) m).1 := by
  cases x with
  | ok a => exact hk a
  | error f => rfl

theorem settles_lift {x : Except Fault α} (hk : ∀ a, Civil E (k a)) :
    Settles (Fault.of? x) ((lift x >>= k) m).1 := by
  cases x with
  | ok a => exact settles_of_civil (hk a) m
  | error f => rfl

theorem settles_shown {v : Value} {k : String → Eval β} (hk : ∀ t, Civil E (k t)) :
    Settles (m.store.snapshot v).fault? ((shown v >>= k) m).1 := by
  rw [shown, bind_assoc, ← Snapshot.of?_shown]
  exact settles_bind (show snapshot v m = (.ok (m.store.snapshot v), m) from rfl) (settles_lift hk)

theorem settles_written {v : Value} {k : String → Eval β} (hk : ∀ t, Civil E (k t)) :
    Settles (m.store.snapshot v).fault? ((written v >>= k) m).1 := by
  rw [written, bind_assoc, ← Snapshot.of?_written]
  exact settles_bind (show snapshot v m = (.ok (m.store.snapshot v), m) from rfl) (settles_lift hk)

theorem settles_world {k : World → Eval β} (hk : Settles f? (k m.world m).1) :
    Settles f? ((world >>= k) m).1 := hk

end

end Eval

namespace Number

theorem floatOfInt_one : ∃ one, floatOfInt 1 = .ok one ∧ (one == 0.0) = false := by
  have hone : ((floatOfInt 1).map (· == 0.0)).toOption = some false := by decide +kernel
  cases hx : floatOfInt 1 with
  | ok one =>
    rw [hx] at hone
    exact ⟨one, rfl, Option.some.inj hone⟩
  | error f =>
    rw [hx] at hone
    cases hone

theorem of?_kindName (n : Number) : Fault.of? n.kindName = n.kindFault? := by
  obtain ⟨one, hone, hzero⟩ := floatOfInt_one
  rw [kindName, bind_pure_comp, Fault.of?_map]
  cases n with
  | int n => rfl
  | float x =>
    simp [mod, pair, hone, hzero, kindFault?, Fault.of?, bind, Except.bind, pure, Except.pure]
  | complex re im => simp [mod, pair, hone, kindFault?, Fault.of?, bind, Except.bind, pure,
      Except.pure, throw, throwThe, MonadExceptOf.throw]
  | text t => exact Fault.of?_map _

end Number

namespace World

theorem of?_drawFrom (w : World) (low high : Int) :
    Fault.of? (w.drawFrom low high) = rangeFault? low high := by
  rw [drawFrom, rangeFault?]
  split <;> rfl

theorem of?_drawBetween (w : World) (a b : Number) :
    Fault.of? (w.drawBetween a b) = betweenFault? a b := by
  have hgeneral : Fault.of? (w.drawBetween a b) =
      match rangeBetween a b with
      | .error f => some f
      | .ok (low, high) => rangeFault? low high := by
    rw [drawBetween]
    cases rangeBetween a b with
    | error f => rfl
    | ok ends => exact w.of?_drawFrom ends.1 ends.2
  cases a with
  | int a =>
    cases b with
    | int b =>
      rw [hgeneral, betweenFault?]
      change rangeFault? a (b + 1) = _
      rw [rangeFault?]
      simp only [Int.add_one_le_iff]
    | _ => exact hgeneral
  | _ => exact hgeneral

theorem of?_stateFrom (w : World) (n : Number) :
    Fault.of? (w.stateFrom n) = Builtin.seedFault? n := by
  cases n <;> rfl

theorem nanoseconds_int (n : Int) :
    nanoseconds (.int n) =
      if 9223372036 < n.natAbs then .error .tooLarge else .ok (n * 1000000000) := by
  have hlimit : Number.sizeLimit = 9223372036854775808 := rfl
  rw [nanoseconds]
  simp only [hlimit, Bool.and_eq_true, decide_eq_true_eq]
  split
  · rw [if_neg (by omega)]
  · rw [if_pos (by omega)]

theorem of?_wait_of_ok {w : World} {n : Number} {ns : Int} (h : nanoseconds n = .ok ns) :
    Fault.of? (w.wait n) = waitFault? w.uptime ns := by
  rw [wait, h, waitFault?]
  change Fault.of? (if ns < 0 then _ else _) = _
  split
  · rfl
  · split <;> rfl

theorem of?_wait (w : World) (n : Number) :
    Fault.of? (w.wait n) = Builtin.sleepFault? w.uptime n := by
  have hgeneral : Fault.of? (w.wait n) =
      match nanoseconds n with
      | .error f => some f
      | .ok ns => waitFault? w.uptime ns := by
    cases h : nanoseconds n with
    | error f =>
      rw [wait, h]
      rfl
    | ok ns => exact of?_wait_of_ok h
  cases n with
  | int n =>
    rw [hgeneral, nanoseconds_int, Builtin.sleepFault?]
    by_cases h : 9223372036 < n.natAbs
    · rw [if_pos h, if_pos h]
    · rw [if_neg h, if_neg h]
  | _ => exact hgeneral

example : Builtin.sleepFault? 0 (.float (0.0 / 0.0)) = some .badValue ∧
    Builtin.sleepFault? 0 (.float 1e300) = some .tooLarge := by decide +kernel

theorem writtenFault?_of_wait {w : World} {n : Number} (h : w.wait n = .ok ()) :
    n.writtenFault? = none := by
  cases n with
  | int n =>
    have hfault := w.of?_wait (.int n)
    rw [h, Builtin.sleepFault?] at hfault
    split at hfault
    · cases hfault
    · next hsmall =>
      rw [Number.writtenFault?, if_neg]
      have hlimit : 9223372036 < Number.digitLimit := by decide +kernel
      omega
  | _ => rfl

end World

namespace BuiltinCall

open Eval Builtin

variable (c : BuiltinCall) {E : Diagnostic → Store → Prop} {f? : Option Fault} {m : Machine}
  {r : ObjectRef} {otherwise : String}

theorem settles_textArg {k : String → Eval Value} {g : String → Option Fault}
    (hk : ∀ s, Settles (g s) (k s m).1) :
    Settles ((m.store.object r).payload.text?.bind g) ((c.textArg r otherwise >>= k) m).1 := by
  rw [textArg, bind_assoc, bind_ok (object_apply r m)]
  cases (m.store.object r).payload with
  | text s => exact hk s
  | _ => exact .inr ⟨_, rfl⟩

theorem settles_numberArg {k : Number → Eval Value} {g : Number → Option Fault}
    (hk : ∀ n, Settles (g n) (k n m).1) :
    Settles ((m.store.object r).payload.number?.bind g)
      ((c.numberArg r otherwise >>= k) m).1 := by
  rw [numberArg, bind_assoc, bind_ok (object_apply r m)]
  cases (m.store.object r).payload with
  | number n => exact hk n
  | _ => exact .inr ⟨_, rfl⟩

theorem settles_listArg {k : ListRef → Eval Value} {g : ListRef → Option Fault}
    (hk : ∀ cells, Settles (g cells) (k cells m).1) :
    Settles ((m.store.object r).payload.list?.bind g) ((c.listArg r otherwise >>= k) m).1 := by
  rw [listArg, bind_assoc, bind_ok (object_apply r m)]
  cases (m.store.object r).payload with
  | list cells => exact hk cells
  | _ => exact .inr ⟨_, rfl⟩

theorem settles_plainNumber {v : Value} {k : Number → Eval Value} {g : Number → Option Fault}
    (hk : ∀ n, Settles (g n) (k n m).1) :
    Settles (plainFault? m.store v g) ((plainNumber v >>= k) m).1 := by
  cases v with
  | object q =>
    rw [plainNumber, bind_assoc, objectOf_bind, bind_ok (object_apply q m), plainFault?,
      Store.payload?]
    dsimp only
    cases (m.store.object q).payload with
    | number n => exact hk n
    | text t => exact hk (.text t)
    | null => exact hk (.text "null")
    | _ => rfl
  | absent | bare => rfl

theorem settles_print (r : ObjectRef) (m : Machine) :
    Settles (m.store.snapshot (.object r)).fault? (print r m).1 := by
  rw [print, bind_ok (object_apply r m)]
  cases hp : (m.store.object r).payload with
  | text s =>
    have hsnapshot : m.store.snapshot (.object r) = .text s := by
      simp [Store.snapshot, Store.snapshotBelow, hp]
    rw [hsnapshot, Snapshot.fault?]
    · exact .inl ⟨_, rfl⟩
    all_goals simp
  | _ => exact settles_shown (E := fun _ _ => False) fun _ => by simp

theorem settles_kindName (r : ObjectRef) (m : Machine) :
    Settles ((m.store.object r).payload.number?.bind Number.kindFault?)
      ((kindName (.object r) >>= text) m).1 := by
  rw [kindName, bind_assoc, objectOf_bind, bind_ok (object_apply r m)]
  dsimp only
  cases (m.store.object r).payload with
  | number n =>
    change Settles n.kindFault? _
    rw [← n.of?_kindName]
    exact settles_lift (E := fun _ _ => False) fun _ => civil_text _
  | _ => exact .inl ⟨_, rfl⟩

theorem settles_append (target value : ObjectRef) (m : Machine) :
    Settles ((m.store.object target).payload.text?.bind fun _ =>
      plainFault? m.store (.object value) appendFault?) (c.append target value m).1 := by
  rw [append, bind_ok (object_apply target m)]
  cases (m.store.object target).payload with
  | text s =>
    apply settles_plainNumber
    intro n
    cases n with
    | text t => exact .inl ⟨_, rfl⟩
    | _ => rfl
  | list cells => exact .inl ⟨_, rfl⟩
  | _ => exact .inr ⟨_, rfl⟩

theorem settles_sleep (r : ObjectRef) (m : Machine) :
    Settles ((m.store.object r).payload.number?.bind (sleepFault? m.world.uptime))
      (c.sleep r m).1 := by
  apply c.settles_numberArg
  intro n
  apply settles_world
  rw [← m.world.of?_wait]
  cases h : m.world.wait n with
  | error f => rfl
  | ok =>
    have hwritten : Fault.of? n.written = none :=
      n.of?_written.trans (World.writtenFault?_of_wait h)
    change Settles none ((lift n.written >>= _) m).1
    rw [← hwritten]
    exact settles_lift (E := c.Fails) fun _ => by simp

theorem settles_randInt (low high : ObjectRef) (m : Machine) :
    Settles ((m.store.object low).payload.number?.bind fun a =>
      (m.store.object high).payload.number?.bind fun b => World.betweenFault? a b)
      (c.randInt low high m).1 := by
  apply c.settles_numberArg
  intro a
  apply c.settles_numberArg
  intro b
  apply settles_world
  rw [← m.world.of?_drawBetween]
  exact settles_lift (E := c.Fails) fun _ => by simp

theorem settles_randSeed (r : ObjectRef) (m : Machine) :
    Settles ((m.store.object r).payload.number?.bind seedFault?) (c.randSeed r m).1 := by
  apply c.settles_numberArg
  intro n
  apply settles_world
  rw [← m.world.of?_stateFrom]
  exact settles_lift (E := c.Fails) fun _ => by simp

theorem settles_randPick (r : ObjectRef) (m : Machine) :
    Settles ((m.store.object r).payload.list?.bind fun cells =>
      pickFault? (m.store.elements cells).size) (c.randPick r m).1 := by
  apply c.settles_listArg
  intro cells
  refine settles_bind (show elements cells m = (.ok (m.store.elements cells), m) from rfl) ?_
  cases hn : (m.store.elements cells).size with
  | zero =>
    rw [if_pos (by simp [Array.isEmpty, hn])]
    exact .inr ⟨_, rfl⟩
  | succ n =>
    rw [if_neg (by simp [Array.isEmpty, hn])]
    apply settles_world
    have hfault : pickFault? (n + 1) = World.rangeFault? 0 ((n + 1 : ℕ) - 1) := by
      cases n with
      | zero => rfl
      | succ n => exact (if_neg (by omega)).symm
    rw [hfault, ← m.world.of?_drawFrom]
    exact settles_lift (E := c.Fails) fun _ => by simp

theorem settles_lenience {k : Bool → Eval Value} (name : String)
    (hk : ∀ b, Settles f? (k b m).1) :
    Settles ((m.store.object r).payload.number?.bind fun n => if isLenience n then f? else none)
      ((c.lenience r name >>= k) m).1 := by
  rw [lenience, bind_assoc]
  apply c.settles_numberArg
  intro n
  rw [isLenience]
  cases h1 : n.isEq (.int 1) with
  | true => exact hk true
  | false =>
    cases h0 : n.isEq (.int 0) with
    | true => exact hk false
    | false => exact .inr ⟨_, rfl⟩

theorem settles_convert {ofNumber : Number → Except Fault Number} {g : Number → Option Fault}
    (hg : ∀ n, Fault.of? (ofNumber n) = g n) (name target : String)
    (ofText : String → Except Fault Number) (value lenient : ObjectRef) (m : Machine) :
    Settles (conversionFault? m.store g value lenient)
      (c.convert name target ofNumber ofText value lenient m).1 := by
  apply c.settles_lenience
  intro isLenient
  rw [bind_ok (object_apply value m)]
  cases hp : (m.store.object value).payload with
  | number n =>
    change Settles (g n) _
    rw [← hg]
    exact settles_lift (E := c.Fails) fun _ => civil_number _
  | text s =>
    dsimp only
    cases ofText s with
    | ok n => exact .inl ⟨_, rfl⟩
    | error f => cases isLenient with
      | true => exact .inl ⟨_, rfl⟩
      | false => exact .inr ⟨_, rfl⟩
  | _ => cases isLenient with
    | true => exact .inl ⟨_, rfl⟩
    | false =>
      rcases Operator.exists_kindName_or_fault value m with ⟨kind, hkind⟩ | ⟨n, f, hn, -⟩
      · exact .inr ⟨_, congrArg Prod.fst (bind_ok hkind)⟩
      · cases hp.symm.trans hn

theorem settles_plainTexts (vs : List Value) {k : List String → Eval Value}
    (hk : ∀ ts, Civil E (k ts)) :
    Settles (joinFault? m.store vs) ((plainTexts vs >>= k) m).1 := by
  induction vs generalizing k with
  | nil => exact settles_of_civil (hk []) m
  | cons v vs ih =>
    simp only [plainTexts, bind_assoc, pure_bind]
    apply settles_plainNumber
    intro n
    rw [← n.of?_written]
    exact settles_lift_bind fun t => ih fun ts => hk (t :: ts)

theorem settles_join (sep parts : ObjectRef) (m : Machine) :
    Settles ((m.store.object sep).payload.text?.bind fun _ =>
      (m.store.object parts).payload.list?.bind fun cells =>
        joinFault? m.store (m.store.elements cells).toList) (c.join sep parts m).1 := by
  apply c.settles_textArg
  intro s
  rw [bind_ok (object_apply parts m)]
  cases (m.store.object parts).payload with
  | list cells => exact settles_plainTexts (E := c.Fails) _ fun _ => civil_text _
  | text t => exact .inl ⟨_, rfl⟩
  | _ => exact .inr ⟨_, rfl⟩

theorem settles_helpFor (r : ObjectRef) (m : Machine) :
    Settles ((m.store.object r).payload.text?.bind helpFault?) (c.helpFor r m).1 := by
  apply c.settles_textArg
  intro topic
  simp only [helpFault?, beq_iff_eq]
  by_cases hempty : topic = ""
  · simp only [if_pos hempty]
    exact .inl ⟨_, rfl⟩
  simp only [if_neg hempty]
  by_cases hkinds : topic = Help.kindsTopic
  · simp only [if_pos hkinds]
    rfl
  simp only [if_neg hkinds]
  cases Help.topics.lookup topic with
  | some page => exact .inl ⟨_, rfl⟩
  | none => rfl

/-- A function other than `exit`, `gets` and `run` has the fault that is listed for it, and
otherwise gives a value or reports an error. -/
theorem settles_perform {b : Builtin} {refs : List ObjectRef} (m : Machine)
    (hlength : refs.length = b.params.length) (hb : b ≠ .exit ∧ b ≠ .gets ∧ b ≠ .run) :
    Settles (b.fault? m.store m.world.uptime refs) (c.perform b refs m).1 := by
  obtain ⟨hexit, hgets, hrun⟩ := hb
  cases b with
  | exit | gets | run => contradiction
  | clear | getNow | getDir | random | help | version =>
    obtain rfl := List.length_eq_zero_iff.mp hlength
    exact settles_of_civil (E := c.Fails) (by unfold perform; simp) m
  | error | isNumber | isString | isList | isFunction | len | openFile | readStream | fileExists
  | getEnv | setDir | sys =>
    obtain ⟨a, rfl⟩ := List.length_eq_one_iff.mp hlength
    exact settles_of_civil (E := c.Fails) (by unfold perform; simp) m
  | extend | pop | setEnv | split | writeStream =>
    obtain ⟨a, b, rfl⟩ := List.length_eq_two.mp hlength
    exact settles_of_civil (E := c.Fails) (by unfold perform; simp) m
  | replace =>
    obtain ⟨a, b, d, rfl⟩ := List.length_eq_three.mp hlength
    exact settles_of_civil (c.civil_replace a b d) m
  | print =>
    obtain ⟨a, rfl⟩ := List.length_eq_one_iff.mp hlength
    exact settles_print a m
  | tostr =>
    obtain ⟨a, rfl⟩ := List.length_eq_one_iff.mp hlength
    exact settles_written (E := c.Fails) fun _ => civil_text _
  | typeOf =>
    obtain ⟨a, rfl⟩ := List.length_eq_one_iff.mp hlength
    exact settles_kindName a m
  | sleep =>
    obtain ⟨a, rfl⟩ := List.length_eq_one_iff.mp hlength
    exact c.settles_sleep a m
  | randSeed =>
    obtain ⟨a, rfl⟩ := List.length_eq_one_iff.mp hlength
    exact c.settles_randSeed a m
  | randPick =>
    obtain ⟨a, rfl⟩ := List.length_eq_one_iff.mp hlength
    exact c.settles_randPick a m
  | helpFor =>
    obtain ⟨a, rfl⟩ := List.length_eq_one_iff.mp hlength
    exact c.settles_helpFor a m
  | append =>
    obtain ⟨a, b, rfl⟩ := List.length_eq_two.mp hlength
    exact c.settles_append a b m
  | randInt =>
    obtain ⟨a, b, rfl⟩ := List.length_eq_two.mp hlength
    exact c.settles_randInt a b m
  | toint =>
    obtain ⟨a, b, rfl⟩ := List.length_eq_two.mp hlength
    exact c.settles_convert (fun _ => Fault.of?_map _) _ _ _ a b m
  | tofloat =>
    obtain ⟨a, b, rfl⟩ := List.length_eq_two.mp hlength
    exact c.settles_convert (fun _ => Fault.of?_map _) _ _ _ a b m
  | join =>
    obtain ⟨a, b, rfl⟩ := List.length_eq_two.mp hlength
    exact c.settles_join a b m

end BuiltinCall

namespace Store.SameValues

variable {s s' : Store} (h : s.SameValues s')

include h

theorem elements (cells : ListRef) : s'.elements cells = s.elements cells := by
  rw [Store.elements, h.lists, Store.elements]

theorem snapshotBelow (depth : Nat) (path : List ListRef) (v : Value) :
    s'.snapshotBelow depth path v = s.snapshotBelow depth path v := by
  induction depth generalizing path v with
  | zero =>
    cases v with
    | object r => simp only [Store.snapshotBelow, h.payload]
    | absent | bare => simp only [Store.snapshotBelow]
  | succ depth ih =>
    cases v with
    | object r => simp only [Store.snapshotBelow, h.payload, h.elements, funext (ih _)]
    | absent | bare => simp only [Store.snapshotBelow]

theorem snapshot (v : Value) : s'.snapshot v = s.snapshot v := by
  rw [Store.snapshot, h.lists, h.snapshotBelow, Store.snapshot]

theorem joinFault? (vs : List Value) : Builtin.joinFault? s' vs = Builtin.joinFault? s vs := by
  induction vs with
  | nil => rfl
  | cons v vs ih =>
    simp only [Builtin.joinFault?, Builtin.plainFault?, h.payload? v, ih]

theorem fault? (uptime : Nat) (b : Builtin) (refs : List ObjectRef) :
    b.fault? s' uptime refs = b.fault? s uptime refs := by
  unfold Builtin.fault? Builtin.plainFault? Builtin.conversionFault?
  simp only [h.payload, h.payload?, h.elements, h.snapshot, h.joinFault?]

end Store.SameValues

namespace Eval

def objects? : List Value → Option (List ObjectRef)
  | [] => some []
  | .object r :: rest => (objects? rest).map (r :: ·)
  | _ :: _ => none

/-- The fault of running a script, if it has one: that of the program in the file, or that of a
report without a place, which cannot be shown. -/
def scriptFault? (fuel depth : Nat) (script : ObjectRef) (m : Machine) : Option Fault :=
  match fuel with
  | 0 => some .outOfFuel
  | fuel + 1 =>
    (m.store.object script).payload.text?.bind fun path =>
      match m.world.readText path with
      | .error _ => none
      | .ok text =>
        match (runText fuel depth ⟨path, text⟩ m).1 with
        | .ok (.error d) => if d.message?.isNone then some .noSuchPart else none
        | .error (.fault f) => some f
        | _ => none

/-- The fault of what a function does once it is entered, if it has one. A script is run on the
machine on which the call has its context. -/
def performedFault? (fuel depth : Nat) (m entered : Machine) (b : Builtin)
    (refs : List ObjectRef) : Option Fault :=
  match b, refs with
  | .run, [script] => scriptFault? fuel depth script entered
  | _, _ => b.fault? m.store m.world.uptime refs

/-- The fault of a call of a function of the language other than `exit` and `gets`, if it has one.
A call cannot do without a context, and each argument has to be an object. -/
def callFault? (fuel depth : Nat) (m : Machine) (r : ObjectRef) (name : String) (b : Builtin)
    (args : List Value) : Option Fault :=
  match fuel, depth with
  | 0, _ => some .outOfFuel
  | _, 0 => some .endlessNesting
  | fuel + 1, depth + 1 =>
    if (m.store.object r).context.isNone then some .noSuchPart
    else if args.length ≠ b.params.length then none
    else (objects? args).elim (some .noSuchPart)
      (performedFault? fuel depth m (enterFunction r (m.store.object r) name b.params args m).2 b)

section

variable {m m' : Machine} {r : ObjectRef} {name : String} {b : Builtin} {context : Context}

theorem objects?_eq_some {args : List Value} {refs : List ObjectRef} :
    objects? args = some refs ↔ args = refs.map .object := by
  induction args generalizing refs with
  | nil => simp [objects?, eq_comm]
  | cons v args ih =>
    cases v with
    | object r => cases refs <;> simp [objects?, ih, and_comm]
    | absent | bare => cases refs <;> simp [objects?]

theorem bindArgs_fault {params : List String} {args : List Value}
    (h : objects? args = none) (hlength : args.length = params.length) :
    ∃ m', bindArgs context params args m = (.error (.fault .noSuchPart), m') := by
  induction args generalizing params m with
  | nil => cases h
  | cons v args ih =>
    rcases params with _ | ⟨p, params⟩
    · cases hlength
    cases v with
    | object q =>
      rw [bindArgs, objectOf_bind]
      obtain ⟨m', hrest⟩ := ih (Option.map_eq_none_iff.mp h) (Nat.succ.inj hlength)
      exact ⟨m', (bind_error hrest :)⟩
    | absent | bare => exact ⟨m, rfl⟩

theorem settles_runFile (c : BuiltinCall) (fuel depth : Nat) (script : ObjectRef) (m : Machine) :
    Settles (scriptFault? fuel depth script m) (runFile fuel depth c script m).1 := by
  cases fuel with
  | zero =>
    rw [runFile]
    rfl
  | succ fuel =>
    rw [runFile]
    apply c.settles_textArg
    intro path
    apply settles_world
    cases m.world.readText path with
    | error e => exact .inr ⟨_, rfl⟩
    | ok text =>
      dsimp only
      rcases hrun : runText fuel depth ⟨path, text⟩ m with ⟨e | d | v, m'⟩
      · rw [bind_error hrun]
        cases e with
        | fault f => rfl
        | _ => exact (((disciplined fuel).runText depth _).stop hrun).elim
      · rw [bind_ok hrun]
        dsimp only
        cases d.message? with
        | none => rfl
        | some message => exact .inr ⟨_, rfl⟩
      · rw [bind_ok hrun]
        exact .inl ⟨_, rfl⟩

/-- A function of the language is entered unless it has no context, the number of arguments is wrong
or one of them is no object. -/
theorem settles_of_enterFunction_error {args : List Value} {stop : Stop} (fuel depth : Nat)
    (hp : (m.store.object r).payload = .builtin name)
    (h : enterFunction r (m.store.object r) name b.params args m = (.error stop, m')) :
    Settles (callFault? (fuel + 1) (depth + 1) m r name b args)
      (.error stop : Except Stop Value) := by
  rw [callFault?]
  rcases hc : callContext (m.store.object r) name m with ⟨s | context, m₁⟩
  · obtain ⟨-, hnone, rfl⟩ := Event.callContext_eq_error hc
    rw [enterFunction, bind_error hc] at h
    cases h
    rw [if_pos (by simp [hnone])]
    rfl
  obtain ⟨outer, hcontext, -, rfl⟩ := callContext_eq_ok hc
  rw [enterFunction, bind_ok hc] at h
  rw [if_neg (by simp [hcontext])]
  by_cases hlength : args.length = b.params.length
  · rw [if_neg (by simp [hlength])]
    rw [bind_ok (checkCount_ok hlength)] at h
    cases hobjects : objects? args with
    | none =>
      obtain ⟨m₂, hargs⟩ := bindArgs_fault hobjects hlength
      rw [bind_error hargs] at h
      cases h
      rfl
    | some refs =>
      obtain rfl := objects?_eq_some.mp hobjects
      rw [List.length_map] at hlength
      rw [bind_ok (bindArgs_eq hlength)] at h
      cases h
  · rw [if_pos hlength]
    obtain ⟨d, -, hcount⟩ := checkCount_error (m.store.object r)
      (m := ⟨((m.store.childOf outer.symbols).2.childOf outer.hidden).2, m.world⟩) hp hlength
    rw [bind_error hcount] at h
    cases h
    exact .inr ⟨d, rfl⟩

theorem settles_performed (c : BuiltinCall) {refs : List ObjectRef} (fuel depth : Nat)
    (hvalues : m.store.SameValues m'.store) (hworld : m'.world = m.world)
    (hlength : refs.length = b.params.length) (hexit : b ≠ .exit) (hgets : b ≠ .gets) :
    Settles (performedFault? fuel depth m m' b refs)
      (Event.performed fuel depth c b refs m').1 := by
  by_cases hrun : b = .run
  · subst hrun
    obtain ⟨script, rfl⟩ := List.length_eq_one_iff.mp hlength
    exact settles_runFile c fuel depth script m'
  · have hfault : performedFault? fuel depth m m' b refs =
        b.fault? m.store m.world.uptime refs := by
      rw [performedFault?]
      simp [hrun]
    rw [hfault, Event.performed_eq hrun, ← hvalues.fault?, ← hworld]
    exact c.settles_perform m' hlength ⟨hexit, hgets, hrun⟩

end

/-- Every call of a function of the language other than `exit` and `gets` gives a value or reports
an error, unless it has one of the listed faults, which is how it ends then. -/
theorem call_settles (fuel depth : Nat) (m : Machine) (r : ObjectRef) (name : String) (b : Builtin)
    (args : List Value) (hp : (m.store.object r).payload = .builtin name)
    (hb : Builtin.ofName? name = some b) (hexit : b ≠ .exit) (hgets : b ≠ .gets) :
    Settles (callFault? fuel depth m r name b args) (call fuel depth r args m).1 := by
  rcases fuel with _ | fuel
  · simp only [call]
    rfl
  rcases depth with _ | depth
  · simp only [call]
    rfl
  rcases Event.call_builtin_cases fuel depth args hp hb with
    ⟨stop, m', hfails, hcall⟩ | ⟨context, m₁, refs, hok, rfl, hcall⟩
  · rw [hcall]
    exact settles_of_enterFunction_error fuel depth hp hfails
  · obtain ⟨m₂, m₃, _, hcontext, hcount, -⟩ := enterFunction_eq_ok hok
    obtain ⟨outer, houter, -, -⟩ := callContext_eq_ok hcontext
    have hlength := checkCount_eq_ok hcount
    rw [hcall, callFault?, if_neg (by simp [houter]), if_neg (by simp [hlength]),
      objects?_eq_some.mpr rfl, hok]
    rw [List.length_map] at hlength
    exact settles_performed _ fuel depth (Event.sameValues_of_enterFunction hok)
      (Event.world_of_enterFunction hok) hlength hexit hgets

/-- There is no help for a topic that is not listed, not even a report. -/
theorem call_settles_unknown_topic :
    let helpFor := (Object.fresh (.builtin "help_for")).within (some (programContext "<stdin>"))
    let m : Machine :=
      ⟨⟨#[helpFor, .fresh (.text "nothing")], #[], #[⟨[], []⟩, ⟨[], []⟩]⟩, .start ⟨"/", []⟩⟩
    callFault? 1 1 m ⟨0⟩ "help_for" .helpFor [.object ⟨1⟩] = some .noSuchPart ∧
      (call 1 1 ⟨0⟩ [.object ⟨1⟩] m).1 = .error (.fault .noSuchPart) := by
  intro helpFor m
  have hfault : callFault? 1 1 m ⟨0⟩ "help_for" .helpFor [.object ⟨1⟩] = some .noSuchPart := by
    decide +kernel
  have hsettles := call_settles 1 1 m ⟨0⟩ "help_for" .helpFor [.object ⟨1⟩] rfl
    (by decide +kernel) (by decide) (by decide)
  rw [hfault] at hsettles
  exact ⟨hfault, hsettles⟩

end Eval

end Think
