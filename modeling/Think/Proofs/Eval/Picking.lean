import Think.Proofs.Eval.Pieces
import Think.Proofs.World.Random

/-! # Picking from a list

An element is picked by an index that is drawn from a range without its upper end, and the upper end
of the range is the last index. So however numbers are drawn from ranges, the last element is never
picked, and from a list of one element nothing can be.
-/

namespace Think

open Eval

variable {m : Machine} {list : ObjectRef} {cells : ListRef}

/-- The machine with its generator in the given state. -/
def Machine.withRandom (m : Machine) (state : Nat) : Machine :=
  { m with world := { m.world with random := state } }

theorem BuiltinCall.randPick_eq (c : BuiltinCall)
    (hlist : (m.store.object list).payload = .list cells) (hcells : m.store.contents cells ≠ []) :
    c.randPick list m =
      match m.world.drawFrom 0 ((m.store.contents cells).length - 1) with
      | .ok (i, state) =>
        (.ok ((m.store.contents cells)[i.toNat]?.getD .absent), m.withRandom state)
      | .error g => (.error (.fault g), m) := by
  have harg (otherwise : String) : c.listArg list otherwise m = (.ok cells, m) := by
    rw [listArg, bind_ok (object_apply list m), hlist]
    rfl
  have helements : elements cells m = (.ok (m.store.elements cells), m) := rfl
  have hworld : world m = (.ok m.world, m) := rfl
  rw [randPick, bind_ok (harg _), bind_ok helements,
    if_neg (by simpa [Store.contents, Array.isEmpty_iff] using hcells)]
  simp only [Store.contents, Array.length_toList, Array.getElem?_toList]
  change (world >>= _) m = _
  rw [bind_ok hworld]
  cases m.world.drawFrom 0 ((m.store.elements cells).size - 1) with
  | ok drawn => rfl
  | error g => rfl

namespace Builtin

section

variable {f : ObjectRef} (fuel depth : Nat)
  (hf : (m.store.object f).payload = .builtin randPick.name)
  (hcontext : (m.store.object f).context ≠ none)
  (hlist : (m.store.object list).payload = .list cells) (hcells : m.store.contents cells ≠ [])

include hf hcontext hlist hcells

theorem call_randPick (state : Nat) :
    (call (fuel + 1) (depth + 1) f [.object list] (m.withRandom state)).1 =
      match (m.withRandom state).world.drawFrom 0 ((m.store.contents cells).length - 1) with
      | .ok (i, _) => .ok ((m.store.contents cells)[i.toNat]?.getD .absent)
      | .error g => .error (.fault g) := by
  have hcount : [list].length = randPick.params.length := rfl
  obtain ⟨c, m₁, hvalues, hworld, hcall⟩ := call_eq_perform (m := m.withRandom state) (by decide)
    hf hcontext hcount fuel depth
  have hcontents : m₁.store.contents cells = m.store.contents cells := by
    rw [Store.contents, Store.elements, hvalues.lists]
    rfl
  have hpick := c.randPick_eq ((hvalues.payload list).trans hlist) (hcontents ▸ hcells)
  rw [hcontents, hworld] at hpick
  rw [List.map_cons, List.map_nil] at hcall
  rw [hcall, BuiltinCall.perform, hpick]
  cases (m.withRandom state).world.drawFrom 0 ((m.store.contents cells).length - 1) with
  | ok drawn => rfl
  | error g => rfl

theorem call_randPick_of_lt (hlength : 1 < (m.store.contents cells).length)
    (hwithin : Random.Within m.world.range 0 ((m.store.contents cells).length - 1)) (state : Nat) :
    ∃ hi : (m.world.range 0 ((m.store.contents cells).length - 1) state).1.toNat <
        (m.store.contents cells).dropLast.length,
      (call (fuel + 1) (depth + 1) f [.object list] (m.withRandom state)).1 =
        .ok (m.store.contents cells).dropLast[
          (m.world.range 0 ((m.store.contents cells).length - 1) state).1.toNat] := by
  obtain ⟨hlow, hhigh⟩ := hwithin state
  have hdraw : (m.withRandom state).world.drawFrom 0 ((m.store.contents cells).length - 1) =
      .ok (m.world.range 0 ((m.store.contents cells).length - 1) state) := if_neg (by omega)
  have hi : (m.world.range 0 ((m.store.contents cells).length - 1) state).1.toNat <
      (m.store.contents cells).dropLast.length := by
    rw [List.length_dropLast]
    omega
  refine ⟨hi, ?_⟩
  rw [call_randPick fuel depth hf hcontext hlist hcells, hdraw, List.getElem_dropLast]
  dsimp only
  rw [List.getElem?_eq_getElem, Option.getD_some]

end

/-- If what is drawn lies in its range, then only the elements before the last are picked. Each of
them is picked in some state if each number of the range is drawn in some state. A list of one
element breaks the program. -/
theorem picks_dropLast (fuel depth : Nat) (m : Machine) (f list : ObjectRef) (cells : ListRef)
    (hf : (m.store.object f).payload = .builtin randPick.name)
    (hcontext : (m.store.object f).context ≠ none)
    (hlist : (m.store.object list).payload = .list cells) (hcells : m.store.contents cells ≠ [])
    (hwithin : 1 < (m.store.contents cells).length →
      Random.Within m.world.range 0 ((m.store.contents cells).length - 1)) :
    (∀ state v,
      (call (fuel + 1) (depth + 1) f [.object list] (m.withRandom state)).1 = .ok v →
        v ∈ (m.store.contents cells).dropLast) ∧
    (1 < (m.store.contents cells).length → ∀ state, ∃ v,
      (call (fuel + 1) (depth + 1) f [.object list] (m.withRandom state)).1 = .ok v) ∧
    (Random.Reaches m.world.range 0 ((m.store.contents cells).length - 1) →
      ∀ v ∈ (m.store.contents cells).dropLast, ∃ state,
        (call (fuel + 1) (depth + 1) f [.object list] (m.withRandom state)).1 = .ok v) ∧
    ((m.store.contents cells).length = 1 → ∀ state,
      (call (fuel + 1) (depth + 1) f [.object list] (m.withRandom state)).1 =
        .error (.fault .badValue)) := by
  have hpick (hlength : 1 < (m.store.contents cells).length) (state : Nat) :=
    call_randPick_of_lt fuel depth hf hcontext hlist hcells hlength (hwithin hlength) state
  have hone (hlength : (m.store.contents cells).length = 1) (state : Nat) :
      (call (fuel + 1) (depth + 1) f [.object list] (m.withRandom state)).1 =
        .error (.fault .badValue) := by
    rw [call_randPick fuel depth hf hcontext hlist hcells, hlength]
    rfl
  refine ⟨fun state v hv => ?_, fun hlength state => ?_, fun hreaches v hv => ?_, hone⟩
  · have hpos := List.length_pos_iff.mpr hcells
    rcases Nat.eq_or_lt_of_le hpos with hlength | hlength
    · cases (hone hlength.symm state).symm.trans hv
    · obtain ⟨hi, hcall⟩ := hpick hlength state
      cases hcall.symm.trans hv
      exact List.getElem_mem hi
  · obtain ⟨hi, hcall⟩ := hpick hlength state
    exact ⟨_, hcall⟩
  · obtain ⟨i, hi, rfl⟩ := List.getElem_of_mem hv
    have hlast : i < (m.store.contents cells).length - 1 := by
      rw [← List.length_dropLast]
      exact hi
    obtain ⟨state, hstate⟩ := hreaches i (by omega) (by omega)
    obtain ⟨hi', hcall⟩ := hpick (by omega) state
    refine ⟨state, ?_⟩
    rw [hcall]
    simp only [hstate, Int.toNat_natCast]

/-- Of three numbers the first two can be picked, and of one number none. -/
theorem picks_dropLast_three :
    let callee := (Object.fresh (.builtin "rand_pick")).within (some (programContext "<stdin>"))
    let numbers : List Object := [5, 6, 7].map fun n => .fresh (.number (.int n))
    let objects := [callee, .fresh (.list ⟨0⟩), .fresh (.list ⟨1⟩)] ++ numbers
    let lists : Array (Array Value) :=
      #[#[.object ⟨3⟩, .object ⟨4⟩, .object ⟨5⟩], #[.object ⟨3⟩]]
    let m : Machine := ⟨⟨objects.toArray, lists, #[]⟩, .start ⟨"/", []⟩⟩
    (∀ state, ∃ v, (call 1 1 ⟨0⟩ [.object ⟨1⟩] (m.withRandom state)).1 = .ok v) ∧
    (∃ state, (call 1 1 ⟨0⟩ [.object ⟨1⟩] (m.withRandom state)).1 = .ok (.object ⟨4⟩)) ∧
    (∀ state, (call 1 1 ⟨0⟩ [.object ⟨1⟩] (m.withRandom state)).1 ≠ .ok (.object ⟨5⟩)) ∧
    ∀ state, (call 1 1 ⟨0⟩ [.object ⟨2⟩] (m.withRandom state)).1 = .error (.fault .badValue) := by
  intro callee numbers objects lists m
  have hcontext : (m.store.object ⟨0⟩).context ≠ none := Option.some_ne_none _
  obtain ⟨honly, hgives, hreaches, -⟩ := picks_dropLast 0 0 m ⟨0⟩ ⟨1⟩ ⟨0⟩ rfl hcontext rfl
    (List.cons_ne_nil _ _) fun _ => Random.within_range (by decide)
  obtain ⟨-, -, -, hone⟩ := picks_dropLast 0 0 m ⟨0⟩ ⟨2⟩ ⟨1⟩ rfl hcontext rfl
    (List.cons_ne_nil _ _) fun h => absurd h (by decide)
  refine ⟨hgives (by decide), hreaches (Random.reaches_range (by decide)) _ (by decide),
    fun state hlast => ?_, hone rfl⟩
  exact absurd (honly state _ hlast) (by decide)

end Builtin

end Think
