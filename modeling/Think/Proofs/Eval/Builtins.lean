import Think.Proofs.Eval.Changes

/-! # What the functions of the language may do

Every function of the language makes modest changes only, and stops with faults and with errors at
the place of the call. Most of them never break down. Each theorem follows the steps of its
function.
-/

namespace Think

namespace BuiltinCall

open Eval

def Fails (c : BuiltinCall) (d : Diagnostic) (_ : Store) : Prop :=
  ∃ details, d = ⟨.runtime, details, c.callee.start, c.callee.stop, some c.context⟩

variable {α : Type} {E : Diagnostic → Store → Prop} (c : BuiltinCall)

@[simp]
theorem civil_fail (details : String) : Civil c.Fails (c.fail details : Eval α) :=
  .throw fun _ => ⟨_, rfl, details, rfl⟩

@[simp]
theorem modest_fail (details : String) : Modest c.Fails (c.fail details : Eval α) :=
  (c.civil_fail details).modest

@[simp]
theorem fail_bind {β : Type} (details : String) (k : α → Eval β) :
    (c.fail details >>= k) = c.fail details := rfl

@[simp]
theorem civil_number (n : Number) : Civil E (number n) := .make nofun

@[simp]
theorem modest_number (n : Number) : Modest E (number n) := (civil_number n).modest

@[simp]
theorem civil_text (s : String) : Civil E (text s) := .make nofun

@[simp]
theorem modest_text (s : String) : Modest E (text s) := (civil_text s).modest

@[simp]
theorem civil_textArg (r : ObjectRef) (otherwise : String) :
    Civil c.Fails (c.textArg r otherwise) := by
  apply Obeys.bind (Obeys.object r)
  intro o
  split <;> simp

@[simp]
theorem civil_numberArg (r : ObjectRef) (otherwise : String) :
    Civil c.Fails (c.numberArg r otherwise) := by
  apply Obeys.bind (Obeys.object r)
  intro o
  split <;> simp

@[simp]
theorem civil_listArg (r : ObjectRef) (otherwise : String) :
    Civil c.Fails (c.listArg r otherwise) := by
  apply Obeys.bind (Obeys.object r)
  intro o
  split <;> simp

@[simp]
theorem civil_fileArg (r : ObjectRef) (otherwise : String) :
    Civil c.Fails (c.fileArg r otherwise) := by
  apply Obeys.bind (Obeys.object r)
  intro o
  split <;> simp

@[simp]
theorem modest_plainNumber (v : Value) : Modest E (plainNumber v) := by
  apply Obeys.bind (Modest.objectOf v)
  rintro ⟨_, o⟩
  dsimp only
  split <;> simp

@[simp]
theorem civil_isKind (r : ObjectRef) (p : Payload → Bool) : Civil E (isKind r p) := by
  simp [isKind]

@[simp]
theorem modest_print (r : ObjectRef) : Modest E (print r) := by
  apply Obeys.bind (Obeys.object r)
  intro o
  split <;> simp

@[simp]
theorem modest_gets (r : ObjectRef) : Modest E (gets r) := by
  apply Obeys.bind (Modest.written _)
  intro prompt
  apply Obeys.bind (Obeys.modifyWorld _)
  intro _
  apply Obeys.bind Obeys.world
  intro w
  dsimp only
  split
  · simp
  · apply Obeys.bind (Obeys.modifyWorld _)
    intro _
    split <;> simp

@[simp]
theorem modest_append (target value : ObjectRef) : Modest c.Fails (c.append target value) := by
  apply Obeys.bind (Obeys.object target)
  intro o
  split
  · simp
  · apply Obeys.bind (modest_plainNumber _)
    intro n
    split <;> simp
  · simp

@[simp]
theorem civil_pop (list index : ObjectRef) : Civil c.Fails (c.pop list index) := by
  apply Obeys.bind (c.civil_listArg list _)
  intro cells
  apply Obeys.bind (c.civil_numberArg index _)
  intro n
  apply Obeys.bind (Operator.obeys_takeElement cells n)
  intro taken
  split <;> simp

@[simp]
theorem civil_extend (a b : ObjectRef) : Civil c.Fails (c.extend a b) := by
  apply Obeys.bind (c.civil_listArg a _)
  intro target
  apply Obeys.bind (c.civil_listArg b _)
  simp

@[simp]
theorem civil_replace (s old new : ObjectRef) : Civil c.Fails (c.replace s old new) := by
  apply Obeys.bind (c.civil_textArg s _)
  simp

@[simp]
theorem civil_len (r : ObjectRef) : Civil c.Fails (c.len r) := by
  apply Obeys.bind (Obeys.object r)
  intro o
  split <;> simp

@[simp]
theorem modest_plainTexts (vs : List Value) : Modest E (plainTexts vs) := by
  induction vs with
  | nil => exact .pure _
  | cons v vs ih =>
    apply Obeys.bind (modest_plainNumber v)
    simp [ih]

@[simp]
theorem modest_join (sep parts : ObjectRef) : Modest c.Fails (c.join sep parts) := by
  apply Obeys.bind (c.civil_textArg sep _).modest
  intro sep
  apply Obeys.bind (Obeys.object parts)
  intro o
  split <;> simp

@[simp]
theorem civil_split (s sep : ObjectRef) : Civil c.Fails (c.split s sep) := by
  apply Obeys.bind (c.civil_textArg s _)
  intro s
  apply Obeys.bind (c.civil_textArg sep _)
  intro sep
  apply Obeys.bind (Obeys.mapM civil_text _)
  simp

@[simp]
theorem civil_openFile (r : ObjectRef) : Civil c.Fails (c.openFile r) := by
  simp [openFile]

@[simp]
theorem civil_readStream (r : ObjectRef) : Civil c.Fails (c.readStream r) := by
  apply Obeys.bind (c.civil_fileArg r _)
  intro path
  apply Obeys.bind Obeys.world
  intro w
  split <;> simp

@[simp]
theorem civil_writeStream (file added : ObjectRef) :
    Civil c.Fails (c.writeStream file added) := by
  apply Obeys.bind (c.civil_fileArg file _)
  intro path
  apply Obeys.bind (c.civil_textArg added _)
  intro added
  apply Obeys.bind Obeys.world
  intro w
  split <;> simp

@[simp]
theorem civil_fileExists (r : ObjectRef) : Civil c.Fails (c.fileExists r) := by
  apply Obeys.bind (Obeys.object r)
  intro o
  split <;> simp

@[simp]
theorem civil_getEnv (r : ObjectRef) : Civil c.Fails (c.getEnv r) := by
  apply Obeys.bind (c.civil_textArg r _)
  intro name
  apply Obeys.bind Obeys.world
  intro w
  split <;> simp

@[simp]
theorem civil_setEnv (name value : ObjectRef) : Civil c.Fails (c.setEnv name value) := by
  apply Obeys.bind (c.civil_textArg name _)
  intro name
  apply Obeys.bind (c.civil_textArg value _)
  intro value
  split <;> simp

@[simp]
theorem civil_getDir : Civil E getDir := by
  simp [getDir]

@[simp]
theorem civil_setDir (r : ObjectRef) : Civil c.Fails (c.setDir r) := by
  apply Obeys.bind (c.civil_textArg r _)
  intro name
  apply Obeys.bind Obeys.world
  intro w
  dsimp only
  split <;> simp

@[simp]
theorem modest_sleep (r : ObjectRef) : Modest c.Fails (c.sleep r) := by
  apply Obeys.bind (c.civil_numberArg r _).modest
  intro seconds
  apply Obeys.bind Obeys.world
  intro w
  apply Obeys.bind (Modest.lift _)
  simp

@[simp]
theorem civil_sys (r : ObjectRef) : Civil c.Fails (c.sys r) := by
  apply Obeys.bind (c.civil_textArg r _)
  intro command
  dsimp only
  split <;> simp

@[simp]
theorem modest_helpFor (r : ObjectRef) : Modest c.Fails (c.helpFor r) := by
  apply Obeys.bind (c.civil_textArg r _).modest
  intro name
  split
  · simp
  · split
    · simp
    · split <;> simp

@[simp]
theorem civil_random : Civil E random := by
  simp [random]

@[simp]
theorem modest_randInt (low high : ObjectRef) : Modest c.Fails (c.randInt low high) := by
  apply Obeys.bind (c.civil_numberArg low _).modest
  intro a
  apply Obeys.bind (c.civil_numberArg high _).modest
  intro b
  apply Obeys.bind Obeys.world
  intro w
  apply Obeys.bind (Modest.lift _)
  rintro ⟨n, state⟩
  simp

@[simp]
theorem modest_randSeed (r : ObjectRef) : Modest c.Fails (c.randSeed r) := by
  apply Obeys.bind (c.civil_numberArg r _).modest
  intro n
  apply Obeys.bind Obeys.world
  intro w
  apply Obeys.bind (Modest.lift _)
  simp

@[simp]
theorem modest_randPick (r : ObjectRef) : Modest c.Fails (c.randPick r) := by
  apply Obeys.bind (c.civil_listArg r _).modest
  intro cells
  apply Obeys.bind (Obeys.elements cells)
  intro vs
  dsimp only
  split
  · simp
  · apply Obeys.bind Obeys.world
    intro w
    apply Obeys.bind (Modest.lift _)
    rintro ⟨i, state⟩
    simp

@[simp]
theorem civil_lenience (r : ObjectRef) (name : String) : Civil c.Fails (c.lenience r name) := by
  apply Obeys.bind (c.civil_numberArg r _)
  intro n
  split
  · simp
  · split <;> simp

@[simp]
theorem modest_convert (name target : String) (ofNumber : Number → Except Fault Number)
    (ofText : String → Except Fault Number) (value lenient : ObjectRef) :
    Modest c.Fails (c.convert name target ofNumber ofText value lenient) := by
  apply Obeys.bind (c.civil_lenience lenient name).modest
  intro lenient
  apply Obeys.bind (Obeys.object value)
  intro o
  split
  · simp
  · split
    · simp
    · split <;> simp
  · split <;> simp

/-- No function of the language changes a table or sends a signal, and its errors are reported where
it is called. -/
theorem modest_perform (b : Builtin) (args : List ObjectRef) :
    Modest c.Fails (c.perform b args) := by
  fun_cases perform c b args <;> first | exact Civil.modest (by simp) | simp [toint, tofloat]

end BuiltinCall

end Think
