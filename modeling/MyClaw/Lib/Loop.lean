import Mathlib.Logic.Relation
import Mathlib.Data.List.Basic

set_option autoImplicit false

/-!
# Loops that put out a value each turn

A loop goes on while its state is not done.  A turn puts out a value, and has the next state unless it
is the last one; a turn that needs more fuel than it is given has no result.  This file has the run of
such a loop on fuel, the states that it reaches, and the rules that carry facts of one turn to facts of
a whole run.

## Main definitions

* `Loop.run` — the values that a loop puts out, on fuel.
* `Loop.Reached` — a state is reached from another one.

## Main results

* `Loop.forall_output_iff` — if a turn's value is good exactly when the state before it meets a
  condition, then all values of a run are good exactly when all states reached meet the condition.
* `Loop.run_rel` — what each turn adds in front of the turns after it, a whole run has.
* `Loop.flatMap_output` — what each turn takes from the state, all turns take from the first state.
* `Loop.exists_run`, `Loop.turn_of_run` — a loop whose turns make the state smaller ends if all the
  turns that it comes to end, and only then.
-/

namespace Loop

variable {σ α : Type*} (done : σ → Bool) (turn : ℕ → σ → Option (α × Option σ))

/-- The values that the loop puts out from the state `s` on. -/
def run : ℕ → σ → Option (List α)
  | 0, _ => none
  | fuel + 1, s =>
    if done s then some []
    else
      match turn (fuel + 1) s with
      | none => none
      | some (a, none) => some [a]
      | some (a, some s) => (run fuel s).map (a :: ·)

/-- A turn leads from `s` to `s'`, and the loop goes on. -/
def Next (s s' : σ) : Prop := (∃ fuel a, turn fuel s = some (a, some s')) ∧ done s' = false

/-- The loop comes to a turn in the state `s'` when it is at a turn in `s`. -/
def Reached : σ → σ → Prop := Relation.ReflTransGen (Next done turn)

/-- What a turn gives does not depend on its fuel. -/
def Steady : Prop :=
  ∀ s f g r r', done s = false → turn f s = some r → turn g s = some r' → r = r'

variable {done turn}

/-- The states reached after a last turn. -/
lemma reached_of_last (hsteady : Steady done turn) {fuel : ℕ} {s s' : σ} {a : α} (hgo : done s = false)
    (hturn : turn fuel s = some (a, none)) (h : Reached done turn s s') : s' = s := by
  rcases Relation.ReflTransGen.cases_head h with h | ⟨mid, ⟨⟨f, b, hmid⟩, -⟩, -⟩
  · exact h.symm
  · cases hsteady s fuel f _ _ hgo hturn hmid

/-- The states reached are the present one, and those reached from the next. -/
lemma reached_iff (hsteady : Steady done turn) {fuel : ℕ} {s next s' : σ} {a : α}
    (hgo : done s = false) (hturn : turn fuel s = some (a, some next)) (hnext : done next = false) :
    Reached done turn s s' ↔ s' = s ∨ Reached done turn next s' := by
  constructor
  · intro h
    rcases Relation.ReflTransGen.cases_head h with h | ⟨mid, ⟨⟨f, b, hmid⟩, -⟩, hrest⟩
    · exact Or.inl h.symm
    · cases hsteady s fuel f _ _ hgo hturn hmid
      exact Or.inr hrest
  · rintro (rfl | h)
    · exact Relation.ReflTransGen.refl
    · exact Relation.ReflTransGen.head ⟨⟨fuel, a, hturn⟩, hnext⟩ h

/-- The states reached when the next state is done. -/
lemma reached_of_done (hsteady : Steady done turn) {fuel : ℕ} {s next s' : σ} {a : α}
    (hgo : done s = false) (hturn : turn fuel s = some (a, some next)) (hnext : done next = true)
    (h : Reached done turn s s') : s' = s := by
  rcases Relation.ReflTransGen.cases_head h with h | ⟨mid, ⟨⟨f, b, hmid⟩, hmidgo⟩, -⟩
  · exact h.symm
  · cases hsteady s fuel f _ _ hgo hturn hmid
    rw [hnext] at hmidgo
    cases hmidgo

/-- A property that every turn keeps is one of every state reached. -/
lemma Reached.induct {Inv : σ → Prop}
    (hkeep : ∀ s f a s', Inv s → done s = false → turn f s = some (a, some s') → Inv s') {s s' : σ}
    (hs : Inv s) (hgo : done s = false) (h : Reached done turn s s') : Inv s' ∧ done s' = false := by
  induction h with
  | refl => exact ⟨hs, hgo⟩
  | tail _ hnext ih =>
    obtain ⟨⟨f, a, hturn⟩, hnext⟩ := hnext
    exact ⟨hkeep _ f a _ ih.1 ih.2 hturn, hnext⟩

/-- **Outputs and states**: if the value of a turn is good exactly when the state before it meets `C`,
then all values of a run are good exactly when all the states it comes to meet `C`.

**Proof sketch.** Induction on the fuel: the states reached are the present one and those reached from
the next. -/
theorem forall_output_iff (Inv C : σ → Prop) (P : α → Prop) (hsteady : Steady done turn)
    (hkeep : ∀ s f a s', Inv s → done s = false → turn f s = some (a, some s') → Inv s')
    (hgood : ∀ s f a o, Inv s → done s = false → turn f s = some (a, o) → (P a ↔ C s))
    {fuel : ℕ} {s : σ} {out : List α} (hs : Inv s) (hgo : done s = false)
    (h : run done turn fuel s = some out) :
    (∀ a ∈ out, P a) ↔ ∀ s', Reached done turn s s' → C s' := by
  induction fuel generalizing s out with
  | zero => cases h
  | succ fuel ih =>
    rw [run, if_neg (by simp [hgo])] at h
    rcases hturn : turn (fuel + 1) s with _ | ⟨a, _ | next⟩
    · rw [hturn] at h
      cases h
    · rw [hturn] at h
      cases h
      rw [List.forall_mem_singleton, hgood s _ a none hs hgo hturn]
      constructor
      · intro hC s' hreach
        rw [reached_of_last hsteady hgo hturn hreach]
        exact hC
      · exact fun hC => hC s Relation.ReflTransGen.refl
    · rw [hturn] at h
      obtain ⟨rest, hrest, rfl⟩ := Option.map_eq_some_iff.1 h
      rw [List.forall_mem_cons, hgood s _ a (some next) hs hgo hturn]
      cases hnext : done next with
      | false =>
        rw [ih (hkeep s _ a next hs hgo hturn) hnext hrest]
        simp only [reached_iff hsteady hgo hturn hnext, forall_eq_or_imp]
      | true =>
        -- the loop is over, and nothing more is put out
        have hnil : rest = [] := by
          cases fuel with
          | zero => cases hrest
          | succ fuel =>
            rw [run, if_pos hnext] at hrest
            exact (Option.some.inj hrest).symm
        subst hnil
        constructor
        · rintro ⟨hC, -⟩ s' hreach
          rw [reached_of_done hsteady hgo hturn hnext hreach]
          exact hC
        · exact fun hC => ⟨hC s Relation.ReflTransGen.refl, nofun⟩

/-- **A relation of states and outputs**: what holds of the values that each turn puts out in front of
those of the turns after it holds of a whole run. -/
theorem run_rel (R : σ → List α → Prop) (hdone : ∀ s, done s = true → R s [])
    (hlast : ∀ s f a, done s = false → turn f s = some (a, none) → R s [a])
    (hturn : ∀ s f a s' out, done s = false → turn f s = some (a, some s') → R s' out → R s (a :: out))
    {fuel : ℕ} {s : σ} {out : List α} (h : run done turn fuel s = some out) : R s out := by
  induction fuel generalizing s out with
  | zero => cases h
  | succ fuel ih =>
    unfold run at h
    split at h
    · next hgo =>
      cases h
      exact hdone s hgo
    · next hgo =>
      have hgo : done s = false := by simpa using hgo
      rcases hres : turn (fuel + 1) s with _ | ⟨a, _ | next⟩
      · rw [hres] at h
        cases h
      · rw [hres] at h
        cases h
        exact hlast s _ a hgo hres
      · rw [hres] at h
        obtain ⟨rest, hrest, rfl⟩ := Option.map_eq_some_iff.1 h
        exact hturn s _ a next rest hgo hres (ih hrest)

/-- **Conservation**: if each turn's value has what the turn takes from the content of the state, a run
has the content of its first state. -/
theorem flatMap_output {β : Type*} (content : σ → List β) (part : α → List β)
    (hdone : ∀ s, done s = true → content s = [])
    (hlast : ∀ s f a, done s = false → turn f s = some (a, none) → content s = part a)
    (hturn : ∀ s f a s', done s = false → turn f s = some (a, some s') →
      content s = part a ++ content s')
    {fuel : ℕ} {s : σ} {out : List α} (h : run done turn fuel s = some out) :
    out.flatMap part = content s := by
  refine run_rel (fun s out => out.flatMap part = content s) (fun s hgo => (hdone s hgo).symm)
    (fun s f a hgo hres => ?_) (fun s f a next rest hgo hres hrest => ?_) h
  · rw [List.flatMap_singleton, hlast s f a hgo hres]
  · rw [List.flatMap_cons, hrest, hturn s f a next hgo hres]

/-- **The loop ends** if every turn that it comes to ends, on any fuel, and makes the state smaller. -/
theorem exists_run (Inv : σ → Prop) (size : σ → ℕ)
    (hkeep : ∀ s f a s', Inv s → done s = false → turn f s = some (a, some s') → Inv s')
    (hless : ∀ s f a s', Inv s → done s = false → turn f s = some (a, some s') → size s' < size s)
    {s : σ} (hs : Inv s) (hgo : done s = false)
    (hends : ∀ s', Reached done turn s s' → ∃ r, ∀ f, turn (f + 1) s' = some r) :
    ∃ fuel out, run done turn fuel s = some out := by
  suffices hrun : ∀ n s, Inv s → done s = false → size s < n →
      (∀ s', Reached done turn s s' → ∃ r, ∀ f, turn (f + 1) s' = some r) →
      ∃ out, run done turn (n + 1) s = some out from
    ⟨_, hrun _ s hs hgo (Nat.lt_succ_self _) hends⟩
  intro n
  induction n with
  | zero =>
    intro s _ _ hsize
    omega
  | succ n ih =>
    intro s hs hgo hsize hends
    obtain ⟨⟨a, o⟩, hres⟩ := hends s Relation.ReflTransGen.refl
    rw [run, if_neg (by simp [hgo]), hres]
    cases o with
    | none => exact ⟨_, rfl⟩
    | some next =>
      have hlt := hless s _ a next hs hgo (hres 0)
      dsimp only
      cases hnext : done next with
      | true =>
        rw [run, if_pos hnext]
        exact ⟨_, rfl⟩
      | false =>
        obtain ⟨out, hout⟩ := ih next (hkeep s _ a next hs hgo (hres 0)) hnext (by omega)
          fun s' hreach => hends s' (Relation.ReflTransGen.head ⟨⟨_, a, hres 0⟩, hnext⟩ hreach)
        rw [hout]
        exact ⟨_, rfl⟩

/-- Every turn that a loop that ends comes to ends. -/
theorem turn_of_run (hsteady : Steady done turn) {fuel : ℕ} {s s' : σ} {out : List α}
    (hgo : done s = false) (h : run done turn fuel s = some out) (hreach : Reached done turn s s') :
    ∃ f r, turn f s' = some r := by
  induction fuel generalizing s out with
  | zero => cases h
  | succ fuel ih =>
    rw [run, if_neg (by simp [hgo])] at h
    rcases hturn : turn (fuel + 1) s with _ | ⟨a, _ | next⟩
    · rw [hturn] at h
      cases h
    · rw [reached_of_last hsteady hgo hturn hreach]
      exact ⟨_, _, hturn⟩
    · rw [hturn] at h
      obtain ⟨rest, hrest, rfl⟩ := Option.map_eq_some_iff.1 h
      cases hnext : done next with
      | true =>
        rw [reached_of_done hsteady hgo hturn hnext hreach]
        exact ⟨_, _, hturn⟩
      | false =>
        rcases (reached_iff hsteady hgo hturn hnext).1 hreach with rfl | hreach
        · exact ⟨_, _, hturn⟩
        · exact ih hnext hrest hreach

end Loop
