import Lithium.Keys.Commit
import Lithium.Keys.Progress
import Lithium.Keys.Sample

/-! Rotations and recoveries that are cut short. A history is any sequence of
attempts, each complete or ended by a crash at any point between two calls, after
which a new process takes over. -/
namespace Lithium.Keys
open Effects Storage

inductive Attempt where
  | rotate
  | recover
  deriving DecidableEq, Repr

def Attempt.program (X : Crypto) (cached : Bool) : Attempt → Prog Unit
  | .rotate => rotateNow X cached
  | .recover => recoverPendingRotationIfAny X

/-- The worlds a history of attempts can lead to, where after a crash the store is
taken over by a process with one of the ids that `takeover` allows. -/
inductive History (X : Crypto) (env : Env) (cached : Bool) (takeover : World → Nat → Prop)
    (start : World) : World → Prop where
  | start : History X env cached takeover start start
  | returned {attempt : Attempt} {tid result w w'} : History X env cached takeover start w →
      Returns (sem env tid) (attempt.program X cached) w result w' →
      History X env cached takeover start w'
  | crashed {attempt : Attempt} {tid w w' pid} : History X env cached takeover start w →
      Stops (sem env tid) (attempt.program X cached) w w' → takeover w' pid →
      History X env cached takeover start (w'.restart pid)

/-- No temp file is left that carries this process id. -/
def Unclaimed (w : World) (pid : Nat) : Prop :=
  ∀ path seq, stampOf path = some (pid, seq) → w.fs.get path = none

section
variable {X : Crypto} {custody : Custody} {keys : Key → Prop} {payloads : Payloads} {env : Env} {cached : Bool}
  {takeover : World → Nat → Prop} {tid : Tid} {w w' start : World} {loose : Prop}

/-- What an attempt keeps at each of its steps, and what its success means. -/
theorem attempt_meets [env.Sighted] (lawful : X.Lawful) (upheld : custody.Upheld X env) (told : custody.apart)
    (here : Sound X custody payloads loose w) (attempt : Attempt) :
    Meets (Solo env tid (Sound X custody payloads loose)) (fun result w =>
      result = .ok () → Settled X payloads w) (attempt.program X cached) w := by
  have frame : Frame w loose w := ⟨rfl, .refl w, here.2⟩
  cases attempt with
  | rotate =>
    refine (rotateNow_spec lawful upheld told excused cached w
      ⟨⟨here.1, frame⟩, rfl⟩).mono ?_
    rintro _ w' ⟨_, ended⟩ rfl
    obtain ⟨mk, ⟨finished, cleared⟩, _⟩ := ended
    exact finished.settled cleared.unmarked
  | recover =>
    refine (recover_spec told excused w ⟨⟨here.1, frame⟩, rfl⟩).mono ?_
    rintro _ w' ⟨_, done, _⟩ rfl
    obtain ⟨_, mk, finished, cleared⟩ := done rfl
    exact finished.settled cleared.unmarked

theorem Sound.restart (here : Sound X custody payloads loose w) {pid : Nat}
    (unclaimed : loose ∨ Unclaimed w pid) : Sound X custody payloads loose (w.restart pid) := by
  refine ⟨here.1, ?_⟩
  obtain may | tidy := here.2
  · exact .inl may
  · refine unclaimed.imp_right fun unclaimed =>
      ⟨tidy.root, tidy.priv, tidy.secrets, tidy.rotate, fun path seq stamp present => ?_⟩
    rw [show (w.restart pid).fs = w.fs from rfl, unclaimed path seq stamp] at present
    cases present

theorem History.sound [env.Sighted] (lawful : X.Lawful) (upheld : custody.Upheld X env) (told : custody.apart)
    (initial : Sound X custody payloads loose start)
    (allowed : ∀ w pid, takeover w pid → loose ∨ Unclaimed w pid)
    (history : History X env cached takeover start w) : Sound X custody payloads loose w := by
  induction history with
  | start => exact initial
  | returned _ run ih => exact (attempt_meets lawful upheld told ih _).stops ih run.stops
  | crashed _ run taken ih =>
    exact ((attempt_meets lawful upheld told ih _).stops ih run).restart (allowed _ _ taken)

/-- Whatever crashes came before, an attempt that returns Ok leaves every keyfile
with its payload under the provider's key, and no marker. -/
theorem attempt_ok_settled (lawful : X.Lawful) (separated : Separated X keys) (sighted : env.Sighted)
    (fresh : FreshDraws env keys) (settled : Settled X payloads start)
    (known : ∀ mk, start.control.providerMk = some mk → keys mk)
    (history : History X env cached takeover start w) (attempt : Attempt)
    (ok : Returns (sem env tid) (attempt.program X cached) w (.ok ()) w') :
    Settled X payloads w' := by
  have upheld := Custody.plain_upheld separated fresh
  have here : Sound X (.plain keys) payloads True w := history.sound lawful upheld trivial
    ⟨settled.recoverable known, .inl trivial⟩ fun _ _ _ => .inl trivial
  exact (attempt_meets lawful upheld trivial here attempt).returns here ok rfl

/-- A rotation of the sample store, cut off after `n` calls, with leftovers removed in
the order that `pick` says. -/
def cutRotation (pick : World → Path) (n : Nat) : World :=
  (follow (exec (sampleEnv false) 0) (plainly 1 pick) n 0 (rotateNow tagged false) sample).2

theorem cutRotation_stops (pick : World → Path) (n : Nat) :
    Stops (sem (sampleEnv false) 0) (Attempt.rotate.program tagged false) sample
      (cutRotation pick n) := follow_stops _ _ _ _ _ _

/-- The crash falls between the overwrite of the live keyfile and the switch of the
provider; recovery finishes the rotation. -/
theorem attempt_ok_settled_sample :
    ∃ w', Settled tagged (payloadsOf tagged (uniform 0) sample.view) w' ∧
      (cutRotation someLeaf 78).control.providerMk = some (uniform 0) ∧
      w'.control.providerMk = some (uniform 1) := by
  have history : History tagged (sampleEnv false) false (fun _ _ => True) sample
      ((cutRotation someLeaf 78).restart 2) :=
    .crashed .start (cutRotation_stops someLeaf 78) trivial
  have returned : Returns (sem (sampleEnv false) 0) (Attempt.recover.program tagged false)
      ((cutRotation someLeaf 78).restart 2) (.ok ()) _ :=
    follow_returns (exec (sampleEnv false) 0) (plainly 1 someLeaf) 100 0 (by decide +kernel)
  exact ⟨_, attempt_ok_settled tagged_lawful tagged_separated (.of_faultless rfl) (sampleEnv_fresh false) sample_settled
    sample_known history .recover returned, by decide +kernel, by decide +kernel⟩

/-- Where a rotation or recovery crashed, a fault-free recovery returns Ok exactly if
no marker is there or every file it needs is. -/
theorem recovery_returns_ok_iff (lawful : X.Lawful) (separated : Separated X keys) (sighted : env.Sighted)
    (fresh : FreshDraws env keys) (settled : Settled X payloads start) (tidy : Tidy start)
    (known : ∀ mk, start.control.providerMk = some mk → keys mk)
    (history : History X env cached Unclaimed start w) (attempt : Attempt)
    (crash : Stops (sem env tid) (attempt.program X cached) w w') {pid : Nat}
    (unclaimed : Unclaimed w' pid) {quiet : Env} (faultless : quiet.faults = false) (tid' : Tid) :
    Delivers (sem quiet tid') (recoverPendingRotationIfAny X) (w'.restart pid)
      (fun result _ => result = .ok ()) ↔ Finishable payloads w'.view := by
  have upheld := Custody.plain_upheld separated fresh
  have sound : Sound X (.plain keys) payloads False w := history.sound lawful upheld trivial
    ⟨settled.recoverable known, .inr tidy⟩ fun _ _ unclaimed => .inr unclaimed
  have here : Sound X (.plain keys) payloads False (w'.restart pid) :=
    ((attempt_meets lawful upheld trivial sound attempt).stops sound crash).restart (.inr unclaimed)
  have frame : Frame (w'.restart pid) False (w'.restart pid) := ⟨rfl, .refl _, here.2⟩
  have sees : quiet.Sighted := .of_faultless faultless
  constructor
  · rintro ⟨⟨result, last, run⟩, ends⟩
    cases ends result last run
    have meets : Meets (Solo quiet tid' (Sound X (.plain keys) payloads False)) _
        (recoverPendingRotationIfAny X) (w'.restart pid) :=
      recover_spec trivial excused _ ⟨⟨here.1, frame⟩, rfl⟩
    exact ((meets.returns here run).2.1 rfl).1
  · intro finishable
    refine ⟨calls_return tid' _ (recoverPendingRotationIfAny_calls waits_of_special (fun _ => rfl)
      (fun _ => rfl) X), fun result last run => ?_⟩
    have meets : Meets (Solo quiet tid' (Sound X (.plain keys) payloads False)) _
        (recoverPendingRotationIfAny X) (w'.restart pid) :=
      recover_spec trivial (fun _ : ¬ False => ⟨⟨faultless, id⟩, finishable⟩) _ ⟨⟨here.1, frame⟩, rfl⟩
    exact ((meets.returns here run).2.2.resolve_left id).1

end

def nextNewFirst (w : World) : Path :=
  if (w.fs.get nextNewPath).isSome then nextNewPath else someLeaf w

theorem cutRotation_unclaimed {pick : World → Path} {n : Nat}
    (checked : unclaimedBy (cutRotation pick n) 2 = true) : Unclaimed (cutRotation pick n) 2 :=
  fun _ _ stamp => unclaimed_of_check checked stamp

/-- A rotation of a consistent store that has switched the provider crashes in its
cleanup, after the removal of `next-mk-new.keyf` and before that of the marker.
Recovery then fails, though no call does. -/
theorem recovery_refused :
    Settled tagged (payloadsOf tagged (uniform 0) sample.view) sample ∧ Tidy sample ∧
      ∃ w, Stops (sem (sampleEnv false) 0) (rotateNow tagged false) sample w ∧ Unclaimed w 2 ∧
        ∃ w', Returns (sem (sampleEnv false) 0) (recoverPendingRotationIfAny tagged) (w.restart 2)
          (.error .aeadFailed) w' := by
  refine ⟨sample_settled, sample_tidy, cutRotation nextNewFirst 84, cutRotation_stops _ _,
    cutRotation_unclaimed (by decide +kernel), _,
    follow_returns (exec (sampleEnv false) 0) (plainly 1 someLeaf) 100 0 ?_⟩
  decide +kernel

/-- Before the marker is written a crash does no harm; after the removal of
`next-mk-new.keyf` it does. -/
theorem recovery_returns_ok_sample :
    Delivers (sem (sampleEnv false) 0) (recoverPendingRotationIfAny tagged)
        ((cutRotation nextNewFirst 40).restart 2) (fun result _ => result = .ok ()) ∧
      ¬ Delivers (sem (sampleEnv false) 0) (recoverPendingRotationIfAny tagged)
        ((cutRotation nextNewFirst 84).restart 2) (fun result _ => result = .ok ()) := by
  have completes : ∀ n, unclaimedBy (cutRotation nextNewFirst n) 2 = true →
      (Delivers (sem (sampleEnv false) 0) (recoverPendingRotationIfAny tagged)
        ((cutRotation nextNewFirst n).restart 2) (fun result _ => result = .ok ()) ↔
        Finishable (payloadsOf tagged (uniform 0) sample.view) (cutRotation nextNewFirst n).view) :=
    fun n unclaimed => recovery_returns_ok_iff tagged_lawful tagged_separated
      (.of_faultless rfl) (sampleEnv_fresh false) sample_settled sample_tidy sample_known .start .rotate
      (cutRotation_stops nextNewFirst n) (cutRotation_unclaimed unclaimed) rfl 0
  refine ⟨(completes 40 (by decide +kernel)).mpr (.inl (by decide +kernel)), fun delivers => ?_⟩
  obtain unmarked | complete := (completes 84 (by decide +kernel)).mp delivers
  · exact absurd unmarked (by decide +kernel)
  · exact complete.1 (by decide +kernel)

end Lithium.Keys
