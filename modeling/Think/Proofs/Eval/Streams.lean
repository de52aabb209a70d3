import Think.Proofs.Eval.Edits

/-! # Streams

The functions of the language that are performed in the course of evaluations are all that changes
the disk. Those that write to streams make additions to files, so a stream that is read gives what
its file held at first and everything that was written since.
-/

namespace Think

open Relation (ReflTransGen)

/-- The addition that the arguments of a function ask for. -/
def Addition.asked? (s : Store) (b : Builtin) (args : List Value) : Option Addition :=
  match b, args with
  | .writeStream, [.object file, .object added] =>
    match (s.object file).payload, (s.object added).payload with
    | .file _ path, .text text => some ⟨path, text⟩
    | _, _ => none
  | _, _ => none

theorem Addition.asked?_congr {s s' : Store} (h : s.SameValues s') (b : Builtin)
    (args : List Value) : asked? s' b args = asked? s b args := by
  unfold asked?
  simp only [h.payload]

namespace BuiltinCall

open Eval

variable {m : Machine} {file added : ObjectRef} {name path text : String} (c : BuiltinCall)

theorem writeStream_eq (hf : (m.store.object file).payload = .file name path)
    (ht : (m.store.object added).payload = .text text) :
    c.writeStream file added m = match m.world.files.append m.world.cwd path text with
      | .ok files => (.ok zeroValue, ⟨m.store, { m.world with files }⟩)
      | .error e => c.fail (s!"Failed to write to file \"{path}\"\n" ++ e.message path) m := by
  rw [writeStream, fileArg, bind_assoc, bind_ok (object_apply file m), hf]
  dsimp only
  rw [pure_bind, textArg, bind_assoc, bind_ok (object_apply added m), ht]
  dsimp only
  rw [pure_bind, bind_ok (show world m = (.ok m.world, m) from rfl)]
  cases m.world.files.append m.world.cwd path text <;> rfl

theorem disk_writeStream (file added : ObjectRef) (m : Machine) :
    (c.writeStream file added m).2.world.disk = m.world.disk.addAll
      (Addition.asked? m.store .writeStream [.object file, .object added]).toList := by
  rw [Addition.asked?]
  cases hf : (m.store.object file).payload with
  | file name path =>
    cases ht : (m.store.object added).payload with
    | text text =>
      rw [c.writeStream_eq hf ht]
      change _ = m.world.disk.add ⟨path, text⟩
      rw [Disk.add]
      change _ = match m.world.files.append m.world.cwd path text with
        | .ok files => _
        | .error _ => _
      cases m.world.files.append m.world.cwd path text <;> rfl
    | _ =>
      rw [writeStream, fileArg, bind_assoc, bind_ok (object_apply file m), hf]
      dsimp only
      rw [pure_bind, textArg, bind_assoc, bind_ok (object_apply added m), ht]
      rfl
  | _ =>
    rw [writeStream, fileArg, bind_assoc, bind_ok (object_apply file m), hf]
    rfl

/-- A function that leaves the directory makes the addition that its arguments ask for. -/
theorem disk_perform {b : Builtin} (hb : b ≠ .setDir) (refs : List ObjectRef) (m : Machine) :
    (c.perform b refs m).2.world.disk =
      m.world.disk.addAll (Addition.asked? m.store b (refs.map .object)).toList := by
  by_cases hw : b = .writeStream
  · subst hw
    rcases refs with _ | ⟨file, _ | ⟨added, _ | ⟨r, refs⟩⟩⟩
    case cons.cons.nil => exact c.disk_writeStream file added m
    all_goals rfl
  · have hedits : b.editsDisk = false := by
      cases b with
      | writeStream => exact absurd rfl hw
      | setDir => exact absurd rfl hb
      | _ => rfl
    have hnone : Addition.asked? m.store b (refs.map .object) = none := by
      unfold Addition.asked?
      split
      · exact absurd rfl hw
      · rfl
    rw [hnone]
    exact c.spares_disk_perform hedits refs m

theorem readStream_eq (hf : (m.store.object file).payload = .file name path) :
    c.readStream file m = match m.world.readText path with
      | .ok s => BuiltinCall.text s m
      | .error e => c.fail (s!"Failed to read file \"{path}\"\n" ++ e.message path) m := by
  rw [readStream, fileArg, bind_assoc, bind_ok (object_apply file m), hf]
  dsimp only
  rw [pure_bind, bind_ok (show world m = (.ok m.world, m) from rfl)]
  cases m.world.readText path <;> rfl

end BuiltinCall

namespace Eval

/-- A call of a function of the language that has been entered. -/
structure Performance where
  fuel : Nat
  depth : Nat
  callee : ObjectRef
  name : String
  builtin : Builtin
  args : List Value
  context : Context
  /-- The machine at the call. -/
  machine : Machine
  /-- The machine that the function is entered with. -/
  entered : Machine
  payload_callee : (machine.store.object callee).payload = .builtin name
  named : Builtin.ofName? name = some builtin
  ne_run : builtin ≠ .run
  enters : enterFunction callee (machine.store.object callee) name builtin.params args machine =
    (.ok context, entered)

namespace Performance

variable (p : Performance)

def ending : Except Stop Value × Machine :=
  call (p.fuel + 1) (p.depth + 1) p.callee p.args p.machine

def addition? : Option Addition := Addition.asked? p.machine.store p.builtin p.args

/-- The path of the stream that the call is to read. -/
def read? : Option String :=
  match p.builtin, p.args with
  | .readStream, [.object file] =>
    match (p.machine.store.object file).payload with
    | .file _ path => some path
    | _ => none
  | _, _ => none

theorem exists_refs : ∃ refs : List ObjectRef, p.args = refs.map .object ∧
    p.ending = (⟨p.machine.store.object p.callee, p.context⟩ : BuiltinCall).perform p.builtin refs
      p.entered := by
  rcases Event.call_builtin_cases p.fuel p.depth p.args p.payload_callee p.named with
    ⟨s, m', hfails, -⟩ | ⟨context, m', refs, hok, hargs, hcall⟩
  · cases p.enters.symm.trans hfails
  · cases p.enters.symm.trans hok
    exact ⟨refs, hargs, hcall.trans (congrFun (Event.performed_eq p.ne_run) _)⟩

theorem sameValues : p.machine.store.SameValues p.entered.store :=
  Event.sameValues_of_enterFunction p.enters

end Performance

namespace Event

variable {e : Event} {m m' : Machine}

/-- The call that the event is, if it is one of a function of the language that is entered. Running
a script takes its course through the events of the script. -/
def performance? : Event → Option Performance
  | .part (.call (fuel + 1) (depth + 1) r args m) =>
    match hp : (m.store.object r).payload with
    | .builtin name =>
      match hb : Builtin.ofName? name with
      | some b =>
        if hr : b = .run then none
        else match he : enterFunction r (m.store.object r) name b.params args m with
          | (.ok context, m₁) =>
            some ⟨fuel, depth, r, name, b, args, context, m, m₁, hp, hb, hr, he⟩
          | (.error _, _) => none
      | none => none
    | _ => none
  | _ => none

/-- The calls of functions of the language in the course of the event, down to `n` levels, in the
order of time. -/
def performances : Nat → Event → List Performance
  | 0, _ => []
  | n + 1, e => e.parts.flatMap (performances n) ++ e.performance?.toList

theorem eq_of_performance? {p : Performance} (h : e.performance? = some p) :
    e = .part (.call (p.fuel + 1) (p.depth + 1) p.callee p.args p.machine) := by
  unfold performance? at h
  split at h
  · split at h
    · split at h
      · split at h
        · cases h
        · split at h
          · cases h
            rfl
          · cases h
      · cases h
    · cases h
  · cases h

theorem performance?_ne_none {fuel depth : Nat} {r : ObjectRef} {name : String} {b : Builtin}
    {args : List Value} {context : Context} (hp : (m.store.object r).payload = .builtin name)
    (hb : Builtin.ofName? name = some b) (hr : b ≠ .run)
    (he : enterFunction r (m.store.object r) name b.params args m = (.ok context, m')) :
    (Event.part (.call (fuel + 1) (depth + 1) r args m)).performance? ≠ none := by
  intro hnone
  unfold performance? at hnone
  dsimp only at hnone
  split at hnone
  · next name' hp' =>
    cases hp.symm.trans hp'
    split at hnone
    · next b' hb' =>
      cases hb.symm.trans hb'
      rw [dif_neg hr] at hnone
      split at hnone
      · cases hnone
      · next he' => cases he.symm.trans he'
    · next hb' => cases hb.symm.trans hb'
  · next hp' => exact hp' name hp

theorem Acts.disk (h : Acts e m m') : m'.world.disk = m.world.disk := by
  cases h with
  | world w hw => exact hw
  | entry hc ha =>
    obtain ⟨outer, -, -, rfl⟩ := callContext_eq_ok hc
    have hworld := world_of_receives ha
    exact congrArg World.disk hworld
  | module hh hz hb =>
    cases hh
    cases hz
    cases hb
    rfl
  | _ => rfl

theorem disk_of_acts (h : ReflTransGen (Acts e) m m') : m'.world.disk = m.world.disk := by
  induction h with
  | refl => rfl
  | tail _ hact ih => exact hact.disk.trans ih

theorem Works.disk (h : Works e m m') (he : e.performance? = none) :
    m'.world.disk = m.world.disk := by
  cases h with
  | rest | list => rfl
  | binary => exact spares_disk_binary _ _ _ _ _
  | unary => exact spares_disk_unary _ _ _ _
  | @perform fuel depth r name b context m₀ _ refs hp hb hentered =>
    by_cases hr : b = .run
    · subst hr
      exact BuiltinCall.spares_disk_perform _ rfl refs m
    · exact absurd he (performance?_ne_none hp hb hr hentered)

end Event

/-- The calls are performed one after the other, from the first disk to the second, and nothing
changes the disk in between. -/
inductive Linked : Disk → List Performance → Disk → Prop
  | nil {d : Disk} : Linked d [] d
  | cons {p : Performance} {ps : List Performance} {d : Disk}
    (h : Linked p.ending.2.world.disk ps d) : Linked p.machine.world.disk (p :: ps) d

namespace Linked

variable {d d' d'' : Disk} {ps qs : List Performance} {p : Performance}

theorem append (h : Linked d ps d') (h' : Linked d' qs d'') : Linked d (ps ++ qs) d'' := by
  induction h with
  | nil => exact h'
  | cons _ ih => exact .cons (ih h')

theorem split (h : Linked d (ps ++ p :: qs) d') : Linked d ps p.machine.world.disk := by
  induction ps generalizing d with
  | nil =>
    cases h
    exact .nil
  | cons q ps ih =>
    cases h with
    | cons h => exact .cons (ih h)

end Linked

namespace Performance

variable (p : Performance)

theorem disk_entered : p.entered.world.disk = p.machine.world.disk :=
  congrArg World.disk (Event.world_of_enterFunction p.enters)

/-- A call that leaves the directory makes the addition that it asks for. -/
theorem disk_ending (hp : p.builtin ≠ .setDir) :
    p.ending.2.world.disk = p.machine.world.disk.addAll p.addition?.toList := by
  obtain ⟨refs, hargs, hending⟩ := p.exists_refs
  rw [hending, BuiltinCall.disk_perform _ hp, p.disk_entered, addition?, hargs,
    Addition.asked?_congr p.sameValues]

end Performance

/-- Calls that leave the directory make the additions that they ask for, and nothing else. -/
theorem Linked.disk {d d' : Disk} {ps : List Performance} (h : Linked d ps d')
    (hdir : ∀ p ∈ ps, p.builtin ≠ .setDir) :
    d' = d.addAll (ps.filterMap Performance.addition?) := by
  induction h with
  | nil => rfl
  | @cons p ps _ _ ih =>
    rw [ih fun q hq => hdir q (List.mem_cons_of_mem p hq),
      p.disk_ending (hdir p List.mem_cons_self),
      List.filterMap_cons]
    cases p.addition? <;> rfl

namespace Event

variable {e : Event} {m m' : Machine}

theorem Tiles.linked {fs : List Event} {P : Event → List Performance} (ht : Tiles e m fs m')
    (he : e.performance? = none)
    (hP : ∀ f ∈ fs, Linked f.machine.world.disk (P f) f.after.world.disk) :
    Linked m.world.disk (fs.flatMap P) m'.world.disk := by
  induction ht with
  | last hacts hwork hacts' =>
    rw [disk_of_acts hacts', hwork.disk he, disk_of_acts hacts]
    exact .nil
  | @part _ f fs _ hacts _ _ ih =>
    rw [List.flatMap_cons, ← disk_of_acts hacts]
    exact (hP f List.mem_cons_self).append (ih fun g hg => hP g (List.mem_cons_of_mem f hg))

theorem linked_of_performance? {p : Performance} (h : e.performance? = some p) :
    e.parts = [] ∧ Linked e.machine.world.disk [p] e.after.world.disk := by
  obtain rfl := eq_of_performance? h
  refine ⟨?_, .cons .nil⟩
  rw [parts, callParts, p.payload_callee]
  dsimp only
  rw [p.named, if_neg (by simpa using p.ne_run)]

/-- In the course of an event only the calls of functions of the language change the disk. -/
theorem linked_performances {n : Nat} (hn : e.fuel < n) :
    Linked e.machine.world.disk (e.performances n) e.after.world.disk := by
  induction n generalizing e with
  | zero => omega
  | succ n ih =>
    rw [performances]
    cases hp : e.performance? with
    | some p =>
      obtain ⟨hparts, hlinked⟩ := linked_of_performance? hp
      rw [hparts]
      exact hlinked
    | none =>
      rw [Option.toList_none, List.append_nil]
      exact (Event.tiles e).linked hp fun f hf =>
        ih (Nat.lt_of_lt_of_le (leads_iff.mpr hf).fuel_lt (Nat.le_of_lt_succ hn))

/-- Evaluations one after the other from a disk on, with nothing done to it in between. -/
inductive Follow : Disk → List Event → Prop
  | nil {d : Disk} : Follow d []
  | cons {e : Event} {es : List Event} (h : Follow e.after.world.disk es) :
    Follow e.machine.world.disk (e :: es)

def timeline (es : List Event) : List Performance := es.flatMap fun e => e.performances (e.fuel + 1)

theorem Follow.linked {d : Disk} {es : List Event} (h : Follow d es) :
    ∃ d', Linked d (timeline es) d' := by
  induction h with
  | nil => exact ⟨_, .nil⟩
  | cons _ ih =>
    obtain ⟨d', hlinked⟩ := ih
    exact ⟨d', (linked_performances (Nat.lt_succ_self _)).append hlinked⟩

end Event

namespace Performance

/-- The call finds on the disk what was there first, when the disk was `d`, and what the additions
have brought, and it acts accordingly. -/
structure Continues (d : Disk) (additions : List Addition) (p : Performance) : Prop where
  /-- At every path there is what was there first, with the texts for it added in turn. -/
  entry : ∀ path, p.machine.world.disk.found path =
    (d.textsFor path additions).foldl Entry.extended (d.found path)
  /-- A stream that is read gives the whole, with all line breaks alike. -/
  reads : ∀ written path, p.read? = some written →
    d.locate written = .ok path → d.found path ≠ some .directory →
    (d.found path ≠ none ∨ d.textsFor path additions ≠ []) →
    ∃ o m', p.ending = (.ok (.object o), m') ∧ (m'.store.object o).payload = .text (Text.unified
      ((d.textsFor path additions).foldl (· ++ ·) (Entry.content (d.found path))))
  /-- A stream of a file that was never there is not read. -/
  misses : ∀ written path, p.read? = some written →
    d.locate written = .ok path → d.found path = none → d.textsFor path additions = [] →
    ∃ report m', p.ending = (.error (.error report), m')
  /-- A stream that is written to takes the text. -/
  writes : ∀ a path, p.addition? = some a →
    d.locate a.path = .ok path → d.found path ≠ some .directory →
    ∃ m', p.ending = (.ok BuiltinCall.zeroValue, m') ∧
      m'.world.disk = p.machine.world.disk.add a

variable {p : Performance} {d : Disk} {additions : List Addition} {written : String} {path : Path}

theorem ending_of_read? (h : p.read? = some written) :
    p.ending = match p.entered.world.readText written with
      | .ok s => BuiltinCall.text s p.entered
      | .error e => BuiltinCall.fail ⟨p.machine.store.object p.callee, p.context⟩
          (s!"Failed to read file \"{written}\"\n" ++ e.message written) p.entered := by
  unfold read? at h
  split at h
  · next file hb ha =>
    split at h
    · next name path hf =>
      cases h
      obtain ⟨refs, hargs, hending⟩ := p.exists_refs
      obtain ⟨r, rfl, hr⟩ := List.map_eq_singleton_iff.mp (hargs.symm.trans ha)
      cases hr
      rw [hending, hb]
      exact BuiltinCall.readStream_eq _ ((p.sameValues.payload file).trans hf)
    · cases h
  · cases h

theorem ending_of_addition? {a : Addition} (h : p.addition? = some a) :
    p.builtin = .writeStream ∧
    p.ending = match p.entered.world.files.append p.entered.world.cwd a.path a.text with
      | .ok files => (.ok BuiltinCall.zeroValue, ⟨p.entered.store, { p.entered.world with files }⟩)
      | .error e => BuiltinCall.fail ⟨p.machine.store.object p.callee, p.context⟩
          (s!"Failed to write to file \"{a.path}\"\n" ++ e.message a.path) p.entered := by
  unfold addition? Addition.asked? at h
  split at h
  · next file added hb ha =>
    split at h
    · next name path text hf ht =>
      cases h
      obtain ⟨refs, hargs, hending⟩ := p.exists_refs
      rcases refs with _ | ⟨r, _ | ⟨r', _ | _⟩⟩ <;> cases hargs.symm.trans ha
      rw [hending, hb]
      exact ⟨rfl, BuiltinCall.writeStream_eq _ ((p.sameValues.payload file).trans hf)
        ((p.sameValues.payload added).trans ht)⟩
    · cases h
  · cases h

theorem continues_of_disk (h : p.machine.world.disk = d.addAll additions) :
    p.Continues d additions := by
  have hentry (path : Path) := d.found_addAll additions path
  have hlocate {written : String} {path : Path} (hpath : d.locate written = .ok path) :
      p.entered.world.disk.locate written = .ok path := by
    rw [p.disk_entered, h, Disk.locate_addAll]
    exact hpath
  rw [← h, ← p.disk_entered] at hentry
  refine ⟨fun path => p.disk_entered ▸ hentry path, ?_, ?_, ?_⟩
  · intro written path hread hpath hfile hthere
    rw [ending_of_read? hread, World.readText_eq (hlocate hpath), hentry,
      Entry.foldl_extended hfile hthere]
    exact ⟨_, _, rfl, congrArg Object.payload (Store.object_push p.entered.store _)⟩
  · intro written path hread hpath hnone hnothing
    rw [ending_of_read? hread, World.readText_eq (hlocate hpath), hentry, hnothing, hnone]
    exact ⟨_, _, rfl⟩
  · intro a path ha hpath hfile
    obtain ⟨hb, hending⟩ := ending_of_addition? ha
    have hthere : p.entered.world.disk.found path ≠ some .directory := by
      rw [hentry, Ne, Entry.foldl_extended_eq_directory]
      exact hfile
    have hdisk := p.disk_ending (by simp [hb])
    rw [show p.entered.world.files.append p.entered.world.cwd a.path a.text = .ok _ from
      FileTree.append_eq_ok (hlocate hpath) hthere a.text] at hending
    rw [hending, ha] at hdisk
    exact ⟨_, hending, hdisk⟩

end Performance

/-- What is written to streams is neither lost nor put in another order nor doubled. In evaluations
one after the other, a call that no change of the directory comes before finds at every path what
was there at first and the texts of all calls so far that write there. -/
theorem Event.Follow.continues (d : Disk) (es : List Event) (hes : Event.Follow d es) (k : Nat)
    (p : Performance) (hp : (Event.timeline es)[k]? = some p)
    (hdir : ∀ q ∈ (Event.timeline es).take k, q.builtin ≠ .setDir) :
    p.Continues d (((Event.timeline es).take k).filterMap Performance.addition?) := by
  obtain ⟨d', hlinked⟩ := hes.linked
  obtain ⟨hk, hget⟩ := List.getElem?_eq_some_iff.mp hp
  have hsplit : Event.timeline es =
      (Event.timeline es).take k ++ p :: (Event.timeline es).drop (k + 1) := by
    rw [← hget, ← List.drop_eq_getElem_cons hk, List.take_append_drop]
  rw [hsplit] at hlinked
  exact Performance.continues_of_disk (hlinked.split.disk hdir)

def Event.readsBack : Event :=
  .text 40 9 ⟨"<stdin>", "f = open_file(\"a\")\nwrite_stream(f, \"\\n1\")\nread_stream(f)"⟩
    (Machine.start (.start ⟨"/home", [(["home", "a"], .file "x\r")]⟩))

/-- The file ends with a carriage return, and what is written starts with a line feed. -/
theorem Event.Follow.continues_joined : ∃ p, (Event.timeline [Event.readsBack])[2]? = some p ∧
    p.Continues Event.readsBack.machine.world.disk
      (((Event.timeline [Event.readsBack]).take 2).filterMap Performance.addition?) ∧
    ∃ o m', p.ending = (.ok (.object o), m') ∧ (m'.store.object o).payload = .text "x\n1" := by
  have hprogram : ((Event.timeline [Event.readsBack])[2]?).any (·.read? = some "a") ∧
      ((Event.timeline [Event.readsBack]).take 2).all (·.builtin ≠ .setDir) ∧
      Event.readsBack.machine.world.disk.textsFor ["home", "a"]
        (((Event.timeline [Event.readsBack]).take 2).filterMap Performance.addition?) =
      ["\n1"] := by
    decide +kernel
  obtain ⟨hread, hdir, htexts⟩ := hprogram
  rw [Option.any_eq_true] at hread
  obtain ⟨p, hp, hread⟩ := hread
  have hcontinues := Event.Follow.continues _ [Event.readsBack] (.cons .nil) 2 p hp
    fun q hq => of_decide_eq_true (List.all_eq_true.mp hdir q hq)
  obtain ⟨o, m', hending, htext⟩ := hcontinues.reads "a" ["home", "a"] (of_decide_eq_true hread)
    (by decide +kernel) (by decide +kernel) (.inl (by decide +kernel))
  rw [htexts] at htext
  exact ⟨p, hp, hcontinues, o, m', hending, htext⟩

end Eval

end Think
