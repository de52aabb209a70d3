import Think.Proofs.Parse.Closure
import Think.Proofs.Parse.Soundness

/-! # Words that open a form

Parts of a production may be given up, but what is kept in the end has read each word that opens a
form as the start of that form. So in a text that can be read as a whole, every such word starts a
form that can be read.
-/

namespace Think

namespace Parse

variable {α β : Type} {f g h : Feed} {ls : List Lexeme} {l : Lexeme}

def Opened (f : Feed) : Prop := ∃ n a g, Yields (atom n) f a g

/-- Each word from `f` up to `g` that opens a form starts one. -/
def Kept (f g : Feed) : Prop :=
  ∀ u t v e, f.tokens = u ++ e.tokens → e.tokens = t :: v ++ g.tokens → t.lexeme.opens → Opened e

namespace Kept

theorem of_passes (hp : f.Passes ls g) (hls : ∀ l ∈ ls, l.opens = false) : Kept f g := by
  intro u t v e hu hv ht
  obtain ⟨w, hw, rfl⟩ := hp
  rw [hu, hv, ← List.append_assoc] at hw
  obtain rfl := List.append_cancel_right hw
  have := hls t.lexeme (by simp)
  simp [ht] at this

theorem refl (f : Feed) : Kept f f := of_passes (.refl f) (by simp)

theorem trans (hfg : Kept f g) (hgh : Kept g h) (hp : f.Passes ls g) : Kept f h := by
  intro u t v e hu hv ht
  obtain ⟨w, hw, -⟩ := hp
  rw [hw] at hu
  obtain ⟨r, rfl, hr⟩ | ⟨r, rfl, hr⟩ := List.append_eq_append_iff.mp hu
  · exact hgh r t v e hr hv ht
  · cases r with
    | nil => exact hgh [] t v e hr.symm hv ht
    | cons t' r =>
      have ht' : t' = t := by
        rw [hr] at hv
        exact (List.cons.inj hv).1
      exact hfg u t' r e (by rw [hw, List.append_assoc, ← hr]) hr (ht' ▸ ht)

/-- The form that starts here is kept with the forms inside it. -/
theorem head (ho : Opened f) (hp : f.Passes [l] f.advance) (hk : Kept f.advance g) : Kept f g := by
  refine trans (g := f.advance) ?_ hk hp
  intro u t v e hu hv _
  obtain ⟨w, hw, hl⟩ := hp
  obtain ⟨t', rfl, -⟩ := List.map_eq_singleton_iff.mp hl
  rw [hu, hv, ← List.append_assoc] at hw
  have hlen := congrArg List.length (List.append_cancel_right hw)
  have hnil : u = [] := List.eq_nil_of_length_eq_zero (by simp at hlen; omega)
  have he : f = e := by
    rw [hnil, List.nil_append] at hu
    obtain ⟨c, r⟩ := f
    obtain ⟨c', r'⟩ := e
    obtain ⟨rfl, rfl⟩ := List.cons.inj hu
    rfl
  exact he ▸ ho

end Kept

def Keeps (f : Feed) (x : Parse α) : Prop :=
  f.Sealed → ∀ {a g}, Yields x f a g → (∃ ls, f.Passes ls g) ∧ Kept f g

namespace Keeps

variable {x : Parse α} {k : α → Parse β}

theorem of_accounts {φ : α → List Lexeme → Prop} (hx : Accounts f x φ)
    (hφ : ∀ a ls, φ a ls → ∀ l ∈ ls, l.opens = false) : Keeps f x := by
  intro hf a g hy
  obtain ⟨ls, hp, ha⟩ := hx hf hy
  exact ⟨⟨ls, hp⟩, .of_passes hp (hφ a ls ha)⟩

theorem bind (hx : Keeps f x) (hk : ∀ a f', Keeps f' (k a)) : Keeps f (x >>= k) := by
  intro hf b g hy
  obtain ⟨a, f', hxy, hky⟩ := hy.bind
  obtain ⟨⟨u, hu⟩, hkept⟩ := hx hf hxy
  obtain ⟨⟨v, hv⟩, hkept'⟩ := hk a f' (hf.passes hu) hky
  exact ⟨⟨u ++ v, hu.trans hv⟩, hkept.trans hkept' hu⟩

theorem ret {a : α} : Keeps f (pure a) := by
  intro _ _ g hy
  obtain ⟨-, rfl⟩ := yields_pure.mp hy
  exact ⟨⟨[], .refl g⟩, .refl g⟩

theorem reject {details : String} : Keeps f (reject details : Parse α) :=
  fun _ _ _ hy => (not_yields_reject hy).elim

theorem exhausted : Keeps f (exhausted : Parse α) := fun _ _ _ hy => (not_yields_exhausted hy).elim

theorem part (hx : Keeps f x) : Keeps f (part x) := fun hf _ _ hy => hx hf hy.part

theorem partOr {details : String} (hx : Keeps f x) : Keeps f (partOr details x) :=
  fun hf _ _ hy => hx hf hy.partOr

theorem attempt (hx : Keeps f x) : Keeps f (attempt x) := by
  intro hf o g hy
  obtain ⟨a, rfl, hxy⟩ | ⟨rfl, rfl⟩ := hy.attempt
  · exact hx hf hxy
  · exact ⟨⟨[], .refl g⟩, .refl g⟩

theorem lexeme {k : Lexeme → Parse β} (h : Keeps f (k f.current.lexeme)) :
    Keeps f (Parse.lexeme >>= k) :=
  fun hf _ _ hy => h hf hy.lexeme

theorem current {k : Token → Parse β} (h : Keeps f (k f.current)) :
    Keeps f (Parse.current >>= k) :=
  fun hf _ _ hy => h hf hy.current

theorem advance (hl : f.current.lexeme = l) (ho : l.opens = false) (hne : l ≠ .endOfText) :
    Keeps f advance := by
  refine of_accounts (.advance hl hne) ?_
  rintro _ _ rfl _ hl
  exact List.mem_singleton.mp hl ▸ ho

theorem importForm (hl : f.current.lexeme = .keyword .importKw) : Keeps f importForm := by
  refine (advance hl rfl (by simp)).bind fun _ f' => .current ?_
  split
  · next ht => exact (advance ht rfl (by simp)).bind fun _ _ => .ret
  · exact .reject

theorem newlines : Keeps f newlines := by
  refine of_accounts .newlines ?_
  rintro c _ rfl l hl
  exact List.eq_of_mem_replicate hl ▸ rfl

end Keeps

def KeepsBehind (f : Feed) (x : Parse α) : Prop :=
  f.Sealed → ∀ {a g}, Yields x f a g → (∃ ls, f.advance.Passes ls g) ∧ Kept f.advance g

namespace KeepsBehind

variable {x : Parse α} {k : α → Parse β} {w : Keyword}

theorem part (hx : KeepsBehind f x) : KeepsBehind f (part x) := fun hf _ _ hy => hx hf hy.part

theorem bind (hw : f.current.lexeme = .keyword w) (hx : KeepsBehind f x)
    (hk : ∀ a f', Keeps f' (k a)) : KeepsBehind f (x >>= k) := by
  intro hf b g hy
  have hf' := hf.passes (hf.passes_advance hw (by simp))
  obtain ⟨a, f', hxy, hky⟩ := hy.bind
  obtain ⟨⟨u, hu⟩, hkept⟩ := hx hf hxy
  obtain ⟨⟨v, hv⟩, hkept'⟩ := hk a f' (hf'.passes hu) hky
  exact ⟨⟨u ++ v, hu.trans hv⟩, hkept.trans hkept' hu⟩

theorem keyword {k : Unit → Parse β} (hk : ∀ f', Keeps f' (k ())) :
    KeepsBehind f (keyword w >>= k) := by
  intro hf b g hy
  obtain ⟨_, f', hw, hky⟩ := hy.bind
  replace hw := Yields.lexeme hw
  split at hw
  · next v hv =>
    split at hw
    · obtain ⟨p, q, rfl, rfl, hq⟩ := hw
      obtain rfl : (Parse.advance p).2 = q := congrArg Prod.snd hq
      exact hk _ (hf.passes (hf.passes_advance hv (by simp))) hky
    · exact (not_yields_reject hw).elim
  · exact (not_yields_reject hw).elim

theorem optionalVar {k : Unit → Parse β} (hne : w ≠ .varKw)
    (hw : f.current.lexeme = .keyword w) (hk : KeepsBehind f (k ())) :
    KeepsBehind f (Parse.optionalVar >>= k) := by
  intro hf b g hy
  have hnot : ¬ f.current.lexeme.isVarText = true := by
    rw [hw]
    cases w <;> first | exact (hne rfl).elim | decide
  rw [Parse.optionalVar, bind_assoc] at hy
  have hy := hy.lexeme
  rw [if_neg hnot] at hy
  exact hk hf hy

end KeepsBehind

/-- A form keeps the word that opens it together with what follows. -/
theorem Keeps.opener {n : Nat} {w : Keyword} (hw : f.current.lexeme = .keyword w)
    (ho : (Lexeme.keyword w).opens) (hx : KeepsBehind f (form n w)) :
    Keeps f (Parse.part (form n w)) := by
  intro hf a g hy
  obtain ⟨⟨ls, hls⟩, hk⟩ := hx hf hy.part
  have hp := hf.passes_advance hw (by simp)
  refine ⟨⟨_, hp.trans hls⟩, .head ?_ hp hk⟩
  obtain ⟨p, q, rfl, hq, hy⟩ := hy
  exact ⟨n + 1, a, g, p, q, rfl, hq, (atom_form hw ho).trans hy⟩

theorem guarded_keeps : Guarded (fun x p => Keeps p.feed x) fun x p =>
    ∀ w, p.feed.current.lexeme = .keyword w → (Lexeme.keyword w).opens →
      KeepsBehind p.feed x where
  ret _ _ := .ret
  exhausted _ := .exhausted
  reject _ _ := .reject
  bind hx hk := hx.bind fun a f => hk a (.start f)
  current := .current
  lexeme := .lexeme
  importForm := .importForm
  newlines _ := .newlines
  part := .part
  partOr _ := .partOr
  attempt := .attempt
  advance hl hplain := .advance hl (Lexeme.opens_of_isPlain hplain) (Lexeme.ne_of_isPlain hplain).1
  opener hw ho hx := .opener hw ho (hx _ hw ho)
  exhaustedBehind _ _ _ _ _ _ _ hy := (not_yields_exhausted hy).elim
  bindBehind hx hk w hw ho := (hx w hw ho).bind hw fun a f => hk a (.start f)
  partBehind hx w hw ho := (hx w hw ho).part
  keywordBehind _ hk _ _ _ := .keyword fun f => hk (.start f)
  varBehind hk w hw ho := .optionalVar (by rintro rfl; cases ho) hw (hk _ w hw ho)

theorem keeps_statements (n : Nat) (f : Feed) : Keeps f (statements n) :=
  (guarded_keeps.shared n).statements (.start f)

end Parse
end Think
