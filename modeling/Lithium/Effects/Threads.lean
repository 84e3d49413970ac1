import Lithium.Effects.Execution
import Mathlib.Logic.Function.Basic
import Mathlib.Logic.Relation

/-! Threads that take turns on one world, a call at a time. If what each thread guarantees
is what the others rely on, then what was shown of each thread on its own holds of every
interleaving. -/
namespace Lithium.Effects

variable {S : Signature} {W G ε α ι : Type}

/-- What is left to do for each thread, and the world they share. -/
structure System (S : Signature) (W ε α ι : Type) where
  threads : ι → Program S ε α
  world : W

/-- Each thread is on its way to its postcondition, as of some moment since which the others
have done what it relies on. -/
def Underway (P : ι → Protocol S W) (post : ι → Except ε α → W → Prop) (s : System S W ε α ι) : Prop :=
  ∀ i, ∃ w, (P i).rely w s.world ∧ Meets (P i) (post i) (s.threads i) w

/-- A thread that has returned meets its postcondition, as long as the others cannot
falsify it. -/
theorem Underway.returned {P : ι → Protocol S W} {post : ι → Except ε α → W → Prop}
    {s : System S W ε α ι} {i : ι} {result : Except ε α} (underway : Underway P post s)
    (finished : s.threads i = .done result)
    (stable : ∀ w w', post i result w → (P i).rely w w' → post i result w') : post i result s.world := by
  obtain ⟨w, moved, meets⟩ := underway i
  rw [finished] at meets
  exact stable w s.world meets moved

/-- The parties to a system: they share the invariant, and each relies on no more than the
others guarantee. -/
structure Crew (sem : ι → Semantics S W) (inv : W → Prop) (P : ι → Protocol S W) : Prop where
  meaning : ∀ {i op w reply w'}, sem i op w reply w' → (P i).sem op w reply w'
  common : ∀ i w, (P i).inv w ↔ inv w
  compatible : ∀ {i j w w'}, i ≠ j → (P i).guar w w' → (P j).rely w w'

section
variable [DecidableEq ι]

/-- Thread `i` makes its next call. -/
inductive Moves (sem : ι → Semantics S W) (i : ι) : System S W ε α ι → System S W ε α ι → Prop where
  | call {threads : ι → Program S ε α} {w w' : W} {op : S.Op} {next : S.Reply op → Program S ε α}
      {reply : S.Reply op} : threads i = .call op next → sem i op w reply w' →
      Moves sem i ⟨threads, w⟩ ⟨Function.update threads i (next reply), w'⟩

theorem Moves.not_done {sem : ι → Semantics S W} {i : ι} {s s' : System S W ε α ι}
    {result : Except ε α} (moves : Moves sem i s s') : s.threads i ≠ .done result := by
  cases moves with
  | call known _ =>
    intro finished
    cases known.symm.trans finished

theorem Moves.others {sem : ι → Semantics S W} {i j : ι} {s s' : System S W ε α ι}
    (moves : Moves sem j s s') (apart : i ≠ j) : s'.threads i = s.threads i := by
  cases moves with
  | call _ _ => exact Function.update_of_ne apart _ _

def Interleaves (sem : ι → Semantics S W) : System S W ε α ι → System S W ε α ι → Prop :=
  Relation.ReflTransGen fun s s' => ∃ i, Moves sem i s s'

theorem Leads.moves {sem : ι → Semantics S W} {threads : ι → Program S ε α} {i : ι} {w w' : W}
    {last : Program S ε α} (path : Leads (sem i) (threads i, w) (last, w')) :
    Relation.ReflTransGen (fun s s' => Moves sem i s s' ∧ ∀ j, j ≠ i → s.threads j = threads j)
      ⟨threads, w⟩ ⟨Function.update threads i last, w'⟩ := by
  obtain ⟨ops, path⟩ := path
  -- the other threads are compared with the first state of the whole run
  suffices whole : ∀ now : ι → Program S ε α, (∀ j, j ≠ i → now j = threads j) →
      Reaches (sem i) (now i, w) ops (last, w') →
      Relation.ReflTransGen (fun s s' => Moves sem i s s' ∧ ∀ j, j ≠ i → s.threads j = threads j)
        ⟨now, w⟩ ⟨Function.update now i last, w'⟩ from whole threads (fun _ _ => rfl) path
  clear path
  intro now others path
  generalize first : (now i, w) = start at path
  generalize ended : (last, w') = final at path
  induction path generalizing now w with
  | refl state =>
    subst ended
    cases first
    rw [Function.update_eq_self]
  | @next op reply next w w₁ ops state called _ ih =>
    obtain ⟨known, rfl⟩ := Prod.mk.inj first
    have rest := ih (Function.update now i (next reply))
      (fun j apart => (Function.update_of_ne apart _ _).trans (others j apart))
      (by rw [Function.update_self]) ended
    rw [Function.update_idem] at rest
    exact .head ⟨.call known called, others⟩ rest

theorem Leads.interleaves {sem : ι → Semantics S W} {threads : ι → Program S ε α} {i : ι} {w w' : W}
    {last : Program S ε α} (path : Leads (sem i) (threads i, w) (last, w')) :
    Interleaves sem ⟨threads, w⟩ ⟨Function.update threads i last, w'⟩ :=
  path.moves.lift id fun _ _ moves => ⟨i, moves.1⟩

/-- One thread is run for up to `fuel` calls. -/
def System.advance {C : Type} (exec : ι → Executor S W C) (i : ι) (choose : Nat → S.Op → W → C)
    (fuel : Nat) (s : System S W ε α ι) : System S W ε α ι :=
  let reached := follow (exec i) choose fuel 0 (s.threads i) s.world
  ⟨Function.update s.threads i reached.1, reached.2⟩

theorem System.advance_others {C : Type} (exec : ι → Executor S W C) {i j : ι} (apart : j ≠ i)
    (choose : Nat → S.Op → W → C) (fuel : Nat) (s : System S W ε α ι) :
    (s.advance exec i choose fuel).threads j = s.threads j := Function.update_of_ne apart _ _

theorem System.advance_interleaves {C : Type} (exec : ι → Executor S W C) (i : ι)
    (choose : Nat → S.Op → W → C) (fuel : Nat) (s : System S W ε α ι) :
    Interleaves (fun i => (exec i).sem) s (s.advance exec i choose fuel) :=
  Leads.interleaves (follow_leads (exec i) choose fuel 0 (s.threads i) s.world)

theorem System.advance_one {C : Type} (exec : ι → Executor S W C) (i : ι)
    (choose : Nat → S.Op → W → C) (s : System S W ε α ι) :
    s.advance exec i choose 1 = s ∨ Moves (fun i => (exec i).sem) i s (s.advance exec i choose 1) := by
  obtain ⟨threads, w⟩ := s
  unfold System.advance
  dsimp only
  cases known : threads i with
  | done result =>
    left
    rw [follow, ← known, Function.update_eq_self]
  | call op next =>
    cases stepped : exec i (choose 0 op w) op w with
    | none =>
      left
      simp only [follow, stepped]
      rw [← known, Function.update_eq_self]
    | some outcome =>
      right
      simp only [follow, stepped]
      exact .call known ⟨choose 0 op w, stepped⟩

section
variable {sem : ι → Semantics S W} {inv : W → Prop} {P : ι → Protocol S W}
  {post : ι → Except ε α → W → Prop} {s s' : System S W ε α ι} {i : ι}

theorem Crew.moves (crew : Crew sem inv P) (here : inv s.world) (underway : Underway P post s)
    (moves : Moves sem i s s') :
    inv s'.world ∧ (P i).guar s.world s'.world ∧ Underway P post s' := by
  cases moves with
  | @call threads w w' op next reply known called =>
    obtain ⟨w₀, moved, meets⟩ := underway i
    have meets' : Meets (P i) (post i) (.call op next) w₀ := known ▸ meets
    obtain ⟨kept, change, rest⟩ :=
      meets' w moved ((crew.common i w).mpr here) reply w' (crew.meaning called)
    refine ⟨(crew.common i w').mp kept, change, fun j => ?_⟩
    by_cases same : j = i
    · subst same
      refine ⟨w', (P j).refl w', ?_⟩
      dsimp only
      rw [Function.update_self]
      exact rest
    · obtain ⟨w₁, moved₁, meets₁⟩ := underway j
      refine ⟨w₁, (P j).trans moved₁ (crew.compatible (Ne.symm same) change), ?_⟩
      dsimp only
      rw [Function.update_of_ne same]
      exact meets₁

theorem Crew.interleaves (crew : Crew sem inv P) (here : inv s.world) (underway : Underway P post s)
    (run : Interleaves sem s s') : inv s'.world ∧ Underway P post s' := by
  induction run with
  | refl => exact ⟨here, underway⟩
  | tail _ moved ih =>
    obtain ⟨i, moves⟩ := moved
    obtain ⟨kept, _, rest⟩ := crew.moves ih.1 ih.2 moves
    exact ⟨kept, rest⟩

end

/-- The calls, with a record that is brought up to date after each. -/
def tracking (track : W → G → G) (sem : Semantics S W) : Semantics S (W × G) :=
  fun op v reply v' => sem op v.1 reply v'.1 ∧ v'.2 = track v'.1 v.2

/-- Keeping a record does not stand in the way of any run. -/
theorem Interleaves.tracked {sem : ι → Semantics S W} (track : W → G → G)
    {s s' : System S W ε α ι} (run : Interleaves sem s s') (g : G) :
    ∃ g', Interleaves (fun i => tracking track (sem i)) ⟨s.threads, s.world, g⟩
      ⟨s'.threads, s'.world, g'⟩ := by
  induction run with
  | refl => exact ⟨g, .refl⟩
  | tail _ moved ih =>
    obtain ⟨g', run'⟩ := ih
    obtain ⟨i, @⟨threads, w, w', op, next, reply, known, called⟩⟩ := moved
    exact ⟨track w' g', run'.tail ⟨i, .call known ⟨called, rfl⟩⟩⟩

end
end Lithium.Effects
