import Lithium.Keys.Commit
import Lithium.Keys.Progress

/-! Fault-free rotations of a manager that is otherwise at rest: each goes through and
leaves the manager at rest on another master key. -/
namespace Lithium.Keys
open Effects Storage

/-- The manager is at rest under `mk`: the live keyfiles open to these payloads, no
rotation is pending, and no thread holds a lock. -/
structure AtRest (X : Crypto) (custody : Custody) (payloads : Payloads) (mk : Key) (w : World) :
    Prop where
  provided : w.control.providerMk = some mk ∧ custody.known mk
  unmarked : w.view readyPath = none
  live : LiveIn X custody payloads mk w.view
  tidy : Tidy w
  unlocked : w.control.writer = none ∧ w.control.readers = []

section
variable {X : Crypto} {custody : Custody} {payloads : Payloads} {mk : Key} {env : Env} {w : World}

theorem AtRest.finished (rest : AtRest X custody payloads mk w) : FinishedAt X custody payloads mk w :=
  ⟨rest.provided, .inl ⟨rest.unmarked, rest.live⟩⟩

theorem Settled.atRest (settled : Settled X payloads w) (tidy : Tidy w)
    (unlocked : w.control.writer = none ∧ w.control.readers = []) :
    ∃ mk, AtRest X .any payloads mk w := by
  obtain ⟨mk, provided, unmarked, live⟩ := settled
  exact ⟨mk, ⟨provided, trivial⟩, unmarked, ⟨live, fun _ _ _ _ _ => trivial⟩, tidy, unlocked⟩

theorem rotateNow_returns (tid : Tid) (cached : Bool) (draws : ∀ mk, ∃ new, env.masterKey mk new = true)
    (unlocked : w.control.writer = none ∧ w.control.readers = []) :
    ∃ result w', Returns (sem env tid) (rotateNow X cached) w result w' := by
  have step : sem env tid .lockWrite w () (w.lockedBy tid) := by
    have free : w.control.writer.isNone = true ∧ w.control.readers.isEmpty = true := by
      simp [unlocked]
    exact ⟨⟨none, [], [], 0⟩, if_pos free⟩
  have calls : ((rotateLocked X cached).guarded (do let _ ← call .unlockWrite; return ())).Calls
      fun op => waits op = false ∨ op = Op.random .masterKey := by
    refine .bind (.attempt (rotateLocked_calls (fun op free => .inl (waits_of_special op free))
      (fun _ => .inl rfl) (fun _ => .inl rfl) X (.inr rfl) (.inl rfl) cached)) fun result => ?_
    exact .bind (.bind (.perform (.inl rfl)) fun _ => trivial) fun _ => trivial
  obtain ⟨result, w', path⟩ := calls_return_drawing tid (w.lockedBy tid) draws calls
  exact ⟨result, w', .next step path⟩

/-- A fault-free rotation that returns has succeeded and left the manager at rest under some
key. -/
theorem AtRest.rotated {tid : Tid} {cached : Bool} {result : Except LithiumError Unit} {w' : World}
    (lawful : X.Lawful) (upheld : custody.Upheld X env) (faultless : env.faults = false)
    (rest : AtRest X custody payloads mk w)
    (returned : Returns (sem env tid) (rotateNow X cached) w result w') : result = .ok () ∧
      ∃ mk', AtRest X custody payloads mk' w' ∧ Untouched w w' ∧
        w'.control = rotatedControl cached w.control mk' := by
  have sighted : env.Sighted := .of_faultless faultless
  have frame : Frame w False w := ⟨rfl, .refl w, .inr rest.tidy⟩
  have told : False → custody.apart := False.elim
  have meets : Meets (Solo env tid (Sound X custody payloads False)) _ (rotateNow X cached) w :=
    rotateNow_settled lawful upheld told (fun _ => ⟨faultless, id⟩) cached w
      ⟨⟨rest.finished, frame⟩, rest.unmarked⟩
  have ended := meets.returns (frame.sound (.inr ⟨mk, rest.finished⟩)) returned
  match result, ended with
  | .error e, ⟨_, excused, _⟩ => exact excused.elim
  | .ok (), ⟨⟨_, tidy⟩, mk', ⟨finished, cleared⟩, control, untouched⟩ =>
    have same : w.unlocked.control = w.control := by
      rw [World.unlocked, ← rest.unlocked.1]
    rw [same] at control
    refine ⟨rfl, mk', ⟨finished.1, cleared.unmarked, finished.live, tidy.resolve_left id, ?_⟩,
      untouched, control⟩
    rw [control]
    exact rest.unlocked

theorem rotateNow_delivers (lawful : X.Lawful) (upheld : custody.Upheld X env)
    (faultless : env.faults = false) (draws : ∀ mk, ∃ new, env.masterKey mk new = true) (tid : Tid)
    (cached : Bool) (rest : AtRest X custody payloads mk w) :
    Delivers (sem env tid) (rotateNow X cached) w fun result w' => result = .ok () ∧
      ∃ mk', AtRest X custody payloads mk' w' ∧ Untouched w w' ∧
        w'.control = rotatedControl cached w.control mk' :=
  ⟨rotateNow_returns tid cached draws rest.unlocked, fun _ _ => rest.rotated lawful upheld faultless⟩

end
end Lithium.Keys
