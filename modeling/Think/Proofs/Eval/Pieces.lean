import Think.Proofs.Eval.Breakdowns
import Think.Proofs.Text.Pieces

/-! # Splitting, joining and replacing

What the functions of the language for the pieces of a text give. Splitting at a separator and
joining the pieces again gives the text back, and joining them by another text is replacing the
separator by it. Splitting takes an empty separator for a space.
-/

namespace Think

open Eval

namespace Store

variable {s s' : Store} {r : ObjectRef} {depth : Nat} {path : List ListRef}

def textPayload? (t : String) : Option Payload := some (.text t)

theorem snapshotBelow_eq_text {v : Value} {t : String} :
    s.snapshotBelow depth path v = .text t ↔ s.payload? v = textPayload? t := by
  cases v with
  | object r =>
    cases hp : (s.object r).payload with
    | list cells =>
      have hlist : s.snapshotBelow depth path (.object r) ≠ .text t := by
        rw [snapshotBelow, hp]
        dsimp only
        split
        · simp
        · cases depth <;> simp
      simp [hlist, payload?, textPayload?, hp]
    | _ => simp [snapshotBelow, payload?, textPayload?, hp]
  | absent | bare => simp [snapshotBelow, payload?, textPayload?]

theorem map_snapshotBelow_eq_texts {vs : List Value} {texts : List String} :
    vs.map (s.snapshotBelow depth path) = texts.map .text ↔
      vs.map s.payload? = texts.map textPayload? := by
  induction vs generalizing texts with
  | nil => cases texts <;> simp
  | cons v vs ih => cases texts <;> simp [snapshotBelow_eq_text, ih]

theorem snapshot_eq_text {t : String} :
    s.snapshot (.object r) = .text t ↔ (s.object r).payload = .text t := by
  rw [snapshot, snapshotBelow_eq_text]
  simp [payload?, textPayload?]

/-- A list shows as a list of texts just if its elements are these texts. -/
theorem snapshot_eq_texts {texts : List String} :
    s.snapshot (.object r) = .list (texts.map .text) ↔ s.lists.size ≠ 0 ∧
      ∃ cells, (s.object r).payload = .list cells ∧
        (s.contents cells).map s.payload? = texts.map textPayload? := by
  cases hp : (s.object r).payload with
  | list cells =>
    cases hsize : s.lists.size with
    | zero => simp [snapshot, snapshotBelow, hp, hsize]
    | succ d => simp [snapshot, snapshotBelow, hp, hsize, map_snapshotBelow_eq_texts, contents]
  | _ => simp [snapshot, snapshotBelow, hp]

theorem Grows.payload? (h : s.Grows s') {v : Value} {t : String}
    (hv : s.payload? v = textPayload? t) : s'.payload? v = textPayload? t := by
  cases v with
  | object r =>
    have hr : (s.object r).payload = .text t := Option.some.inj hv
    rw [Store.payload?, h.objects r (index_lt (by simp [hr])), hr]
    rfl
  | absent | bare => cases hv

theorem Grows.texts (h : s.Grows s') {vs : List Value} {texts : List String}
    (hvs : vs.map s.payload? = texts.map textPayload?) :
    vs.map s'.payload? = texts.map textPayload? := by
  induction vs generalizing texts with
  | nil => exact hvs
  | cons v vs ih =>
    rcases texts with _ | ⟨t, texts⟩
    · cases hvs
    obtain ⟨hv, hvs⟩ := List.cons_eq_cons.mp hvs
    rw [List.map_cons, List.map_cons, h.payload? hv, ih hvs]

end Store

namespace BuiltinCall

variable {m : Machine} {s : String} {a : ObjectRef} (c : BuiltinCall)

theorem textArg_text (h : (m.store.object a).payload = .text s) (otherwise : String) :
    c.textArg a otherwise m = (.ok s, m) := by
  rw [textArg, bind_ok (object_apply a m), h]
  rfl

theorem mapM_text (texts : List String) (m : Machine) : ∃ vs m',
    texts.mapM text m = (.ok vs, m') ∧ m.store.Grows m'.store ∧
      vs.map m'.store.payload? = texts.map Store.textPayload? := by
  induction texts generalizing m with
  | nil => exact ⟨[], m, rfl, ⟨rfl, rfl, Nat.le_refl _, fun _ _ => rfl⟩, rfl⟩
  | cons t texts ih =>
    let m₁ : Machine := ⟨(m.store.allocate (.fresh (.text t))).2, m.world⟩
    have htext : text t m = (.ok (.object ⟨m.store.objects.size⟩), m₁) := rfl
    have hfirst : m₁.store.payload? (.object ⟨m.store.objects.size⟩) = Store.textPayload? t := by
      rw [Store.payload?, Store.object_push]
      rfl
    obtain ⟨vs, m', hrest, hgrows, hvs⟩ := ih m₁
    refine ⟨.object ⟨m.store.objects.size⟩ :: vs, m', ?_,
      (Store.Grows.allocate _ _).trans hgrows, ?_⟩
    · rw [List.mapM_cons, bind_ok htext, bind_ok hrest]
      rfl
    · rw [List.map_cons, List.map_cons, hgrows.payload? hfirst, hvs]

theorem plainTexts_texts {vs : List Value} {texts : List String}
    (h : vs.map m.store.payload? = texts.map Store.textPayload?) :
    plainTexts vs m = (.ok texts, m) := by
  induction vs generalizing texts with
  | nil =>
    rw [List.map_nil, List.nil_eq, List.map_eq_nil_iff] at h
    rw [h]
    rfl
  | cons v vs ih =>
    rcases texts with _ | ⟨t, texts⟩
    · cases h
    obtain ⟨hv, hvs⟩ := List.cons_eq_cons.mp h
    cases v with
    | object r =>
      have hplain : plainNumber (.object r) m = (.ok (.text t), m) := by
        rw [plainNumber, objectOf_bind, bind_ok (object_apply r m)]
        dsimp only
        rw [Option.some.inj hv]
        rfl
      have hwritten : lift (Number.text t).written m = (.ok t, m) := rfl
      rw [plainTexts, bind_ok hplain, bind_ok hwritten, bind_ok (ih hvs)]
      rfl
    | absent | bare => cases hv

end BuiltinCall

/-- Called on objects that show as the given ones, the function gives a value that shows as the
result. -/
def Builtin.Computes (b : Builtin) (given : List Snapshot) (result : Snapshot) : Prop :=
  ∀ (fuel depth : Nat) (m : Machine) (f : ObjectRef) (args : List ObjectRef),
    (m.store.object f).payload = .builtin b.name → (m.store.object f).context ≠ none →
    args.map (fun r => m.store.snapshot (.object r)) = given →
    ∃ v m', call (fuel + 1) (depth + 1) f (args.map .object) m = (.ok v, m') ∧
      m'.store.snapshot v = result

namespace Builtin

theorem ofName?_name (b : Builtin) : ofName? b.name = some b := by
  cases b <;> rfl

/-- A call with as many objects as the function takes performs it, in a machine with the same
values and the same world. -/
theorem call_eq_perform {b : Builtin} {m : Machine} {f : ObjectRef} {args : List ObjectRef}
    (hrun : b ≠ .run) (hpayload : (m.store.object f).payload = .builtin b.name)
    (hcontext : (m.store.object f).context ≠ none) (hcount : args.length = b.params.length)
    (fuel depth : Nat) :
    ∃ (c : BuiltinCall) (m₁ : Machine), m.store.SameValues m₁.store ∧ m₁.world = m.world ∧
      call (fuel + 1) (depth + 1) f (args.map .object) m = c.perform b args m₁ := by
  obtain ⟨outer, houter⟩ := Option.ne_none_iff_exists'.mp hcontext
  have henter := enterFunction_objects (m := m) (r := f) houter b.name hcount
  rcases Event.call_builtin_cases fuel depth (args.map .object) hpayload b.ofName?_name with
    ⟨stop, m₁, hfails, -⟩ | ⟨context, m₁, refs, hok, hargs, hcall⟩
  · cases henter.symm.trans hfails
  · obtain rfl : args = refs := List.map_injective_iff.mpr (fun _ _ h => by cases h; rfl) hargs
    exact ⟨_, m₁, Event.sameValues_of_enterFunction hok, Event.world_of_enterFunction hok,
      by rw [hcall, Event.performed_eq hrun]⟩

theorem computes_of_perform {b : Builtin} {given : List Snapshot} {result : Snapshot}
    (hrun : b ≠ .run) (hlength : given.length = b.params.length)
    (h : ∀ (c : BuiltinCall) (m : Machine) (refs : List ObjectRef),
      refs.map (fun r => m.store.snapshot (.object r)) = given →
      ∃ v m', c.perform b refs m = (.ok v, m') ∧ m'.store.snapshot v = result) :
    b.Computes given result := by
  intro fuel depth m f args hpayload hcontext hgiven
  have hcount : args.length = b.params.length := by
    rw [← hlength, ← hgiven, List.length_map]
  obtain ⟨c, m₁, hvalues, -, hcall⟩ :=
    call_eq_perform hrun hpayload hcontext hcount fuel depth
  rw [hcall]
  apply h
  rw [← hgiven]
  simp only [hvalues.snapshot]

/-- The separator that a text is split at: a space stands in for an empty one. -/
def separator (sep : String) : String := if sep = "" then " " else sep

theorem separator_ne_empty (sep : String) : separator sep ≠ "" := by
  unfold separator
  split
  · decide
  · assumption

theorem computes_split (s sep : String) :
    split.Computes [.text s, .text sep] (.list ((Text.split s (separator sep)).map .text)) := by
  refine computes_of_perform (by decide) rfl fun c m refs hrefs => ?_
  rcases refs with _ | ⟨a, _ | ⟨b, _ | _⟩⟩ <;> simp [Store.snapshot_eq_text] at hrefs
  have hsep : (if sep.isEmpty then " " else sep) = separator sep := by simp [separator]
  obtain ⟨vs, m₁, hpieces, -, hvs⟩ := BuiltinCall.mapM_text (Text.split s (separator sep)) m
  let s₁ := (m₁.store.allocateList vs.toArray).2
  refine ⟨.object ⟨s₁.objects.size⟩,
    ⟨(s₁.allocate (.fresh (.list ⟨m₁.store.lists.size⟩))).2, m₁.world⟩, ?_, ?_⟩
  · rw [BuiltinCall.perform, BuiltinCall.split, bind_ok (c.textArg_text hrefs.1 _),
      bind_ok (c.textArg_text hrefs.2 _), hsep, bind_ok hpieces]
    rfl
  · have helements : vs.map s₁.payload? = _ := hvs
    have hcontents (o : Object) : (s₁.allocate o).2.contents ⟨m₁.store.lists.size⟩ = vs := by
      simp [Store.contents, Store.elements, s₁, Store.allocateList, Store.allocate]
    refine Store.snapshot_eq_texts.mpr ⟨by simp [s₁, Store.allocateList, Store.allocate],
      ⟨m₁.store.lists.size⟩, congrArg Object.payload (Store.object_push s₁ _), ?_⟩
    rw [hcontents]
    exact (Store.Grows.allocate s₁ _).texts helements

theorem computes_join (sep : String) (texts : List String) :
    join.Computes [.text sep, .list (texts.map .text)] (.text (Text.join sep texts)) := by
  refine computes_of_perform (by decide) rfl fun c m refs hrefs => ?_
  rcases refs with _ | ⟨a, _ | ⟨b, _ | _⟩⟩ <;> simp at hrefs
  obtain ⟨ha, hb⟩ := hrefs
  obtain ⟨-, cells, hp, hvs⟩ := Store.snapshot_eq_texts.mp hb
  refine ⟨.object ⟨m.store.objects.size⟩,
    ⟨(m.store.allocate (.fresh (.text (Text.join sep texts)))).2, m.world⟩, ?_, ?_⟩
  · rw [BuiltinCall.perform, BuiltinCall.join,
      bind_ok (c.textArg_text (Store.snapshot_eq_text.mp ha) _), bind_ok (object_apply b m), hp]
    exact (bind_ok (BuiltinCall.plainTexts_texts hvs)).trans rfl
  · rw [Store.snapshot_eq_text, Store.object_push]
    rfl

theorem computes_replace (s old new : String) :
    replace.Computes [.text s, .text old, .text new] (.text (Text.replace s old new)) := by
  refine computes_of_perform (by decide) rfl fun c m refs hrefs => ?_
  rcases refs with _ | ⟨a, _ | ⟨b, _ | ⟨d, _ | _⟩⟩⟩ <;> simp [Store.snapshot_eq_text] at hrefs
  refine ⟨.object ⟨m.store.objects.size⟩,
    ⟨(m.store.allocate (.fresh (.text (Text.replace s old new)))).2, m.world⟩, ?_, ?_⟩
  · rw [BuiltinCall.perform, BuiltinCall.replace, bind_ok (c.textArg_text hrefs.1 _),
      bind_ok (c.textArg_text hrefs.2.1 _), bind_ok (c.textArg_text hrefs.2.2 _)]
    rfl
  · rw [Store.snapshot_eq_text, Store.object_push]
    rfl

/-- Splitting a text gives pieces that are free of the separator, one more than it has occurrences.
The separator joins them to the text, and any other text joins them to what replacing gives. -/
theorem split_join_replace (s sep w : String) :
    ∃ pieces : List String,
      split.Computes [.text s, .text sep] (.list (pieces.map .text)) ∧
      join.Computes [.text (separator sep), .list (pieces.map .text)] (.text s) ∧
      (∃ t, join.Computes [.text w, .list (pieces.map .text)] (.text t) ∧
        replace.Computes [.text s, .text (separator sep), .text w] (.text t)) ∧
      (∀ piece ∈ pieces, ¬ (separator sep).toList <:+: piece.toList) ∧
      (∃ places, Text.Finds (separator sep).toList s.toList 0 places) ∧
      ∀ places, Text.Finds (separator sep).toList s.toList 0 places →
        pieces.length = places.length + 1 := by
  have hsep := separator_ne_empty sep
  obtain ⟨places, hplaces, hlength⟩ := Text.length_split (s := s) hsep
  have hjoin := computes_join (separator sep) (Text.split s (separator sep))
  have hreplace := computes_replace s (separator sep) w
  rw [Text.join_split hsep] at hjoin
  rw [Text.replace_eq_join hsep] at hreplace
  refine ⟨_, computes_split s sep, hjoin, ⟨_, computes_join w _, hreplace⟩,
    fun piece hpiece => Text.free_of_mem_split hsep hpiece, ⟨places, hplaces⟩, ?_⟩
  intro places' hplaces'
  rw [hlength, hplaces.unique hplaces']

end Builtin

end Think
