import Lithium.Keys.Crash
import Lithium.Keys.Sample
import Lithium.Keys.Start

/-! First starts that are cut short, and the start that follows. -/
namespace Lithium.Keys
open Effects Storage

def Blank (w : World) : Prop :=
  w.control.providerMk = none ∧ ∀ path, rootDir <:+ path → w.fs.get path = none

/-- What first starts leave that are cut short between any two of their calls. Calls may
fail; but a provider that denied having a master key would lose it, and a sealed seed that is
not seen is replaced. -/
inductive FirstStart (X : Crypto) (cached : Bool) (config : KeyManagerConfig) : World → Prop where
  | blank {w} : Blank w → FirstStart X cached config w
  | crashed {env tid pid w w'} : FirstStart X cached config w →
      (env.Denies .loadMk → w.control.providerMk = none) → env.Candid True →
      Stops (sem env tid) (startWithConfig X cached config) (w.restart pid) w' →
      FirstStart X cached config w'

/-- Every sealed seed has its public file. -/
def Published (v : View) : Prop :=
  (v edPriv ≠ none → v edPub ≠ none) ∧ (v diliPriv ≠ none → v diliPub ≠ none)

section
variable {X : Crypto} {cached : Bool} {config : KeyManagerConfig} {w : World} {pid : Nat}
  {loose : Prop}

theorem Blank.founded (blank : Blank w) : Founded X Stage.Honest w := by
  have absent : ∀ path, rootDir <:+ path → w.view path = none := fun path inside => by
    unfold World.view
    split
    · rfl
    · exact blank.2 path inside
  have dirs : ∀ dir ∈ storeDirs, rootDir <:+ dir := by decide
  have files : ∀ path ∈ identityFiles, rootDir <:+ path := by decide
  refine ⟨⟨fun dir member => .inl (blank.2 dir (dirs dir member)), .inl (blank.2 _ (by decide)),
    fun node found => ?_, absent _ (by decide)⟩, ⟨none, none⟩, ⟨none, none⟩, ⟨.inl rfl, .inl rfl⟩,
    fun mk _ => ⟨⟨fun _ => absent _ (files edPriv (by decide)), by rintro _ ⟨⟩,
        absent _ (files edPub (by decide))⟩,
      ⟨fun _ => absent _ (files diliPriv (by decide)), by rintro _ ⟨⟩,
        absent _ (files diliPub (by decide))⟩⟩⟩
  rw [absent _ (by decide)] at found
  cases found

theorem entering_restart (layout : Layout w) (fresh : loose ∨ Unclaimed w pid) :
    Entering w.control.providerMk w.view loose [] (w.restart pid) := by
  refine ⟨⟨⟨⟨layout.dirs, layout.rotate, layout.lock, layout.unmarked⟩, rfl, ⟨rfl, rfl, rfl⟩,
    fun _ _ _ _ => rfl, fresh.imp_right fun unclaimed path seq stamp present => ?_, by simp⟩,
    fun _ _ => rfl⟩, rfl⟩
  rw [show (w.restart pid).fs = w.fs from rfl, unclaimed path seq stamp] at present
  cases present

theorem honest_closed : Closed True Stage.Honest := fun _ _ _ honest becomes => honest.becomes becomes

theorem FirstStart.founded (lawful : X.Lawful) (short : ShortKeys X)
    (crashed : FirstStart X cached config w) : Founded X Stage.Honest w := by
  induction crashed with
  | blank blank => exact blank.founded
  | @crashed env tid pid w w' _ honest candid stopped ih =>
    obtain ⟨layout, ed, dili, fit, identity⟩ := ih
    have entering : Entering _ _ True [] (w.restart pid) := entering_restart layout (.inl trivial)
    have meets : Meets (Solo env tid (Begun X Stage.Honest _ _)) _ (startWithConfig X cached config)
        (w.restart pid) :=
      startWithConfig_spec lawful short honest_closed fit identity id excused honest candid _ entering
    exact (meets.stops (entering.1.1.begun entering.1.2 fit identity) stopped).founded

/-- The sealed seed of a key is told by its files. -/
theorem SeedKey.At.seed_of_loads {mk : Key} {key : SeedKey} {v : View} {stage : Stage} {seed : Fixed 32}
    (here : key.At X mk v stage) (loads : loadNode X (v key.priv) mk key.keyType = .ok seed.1) :
    stage.seed = some seed := by
  cases known : stage.seed with
  | none =>
    rw [here.absent known] at loads
    cases loads
  | some before =>
    have same := Except.ok.inj ((here.loads before known).symm.trans loads)
    exact congrArg some (Subtype.ext same)

theorem SeedKey.At.unpublished_iff {mk : Key} {key : SeedKey} {v : View} {stage : Stage}
    (here : key.At X mk v stage) :
    ¬ stage.Unpublished ↔ (v key.priv ≠ none → v key.pub ≠ none) := by
  have sealed : stage.seed ≠ none ↔ v key.priv ≠ none := by
    cases known : stage.seed with
    | none => simp [here.absent known]
    | some seed =>
      obtain ⟨found, _, there, _⟩ := loadNode_ok (here.loads seed known)
      simp [there]
  rw [Stage.Unpublished, sealed, here.pub, not_and]

theorem published_iff {provided : Option Key} {v : View} {ed dili : Stage}
    (identity : IdentityAt X provided v ed dili) :
    Published v ↔ ¬ ed.Unpublished ∧ ¬ dili.Unpublished := by
  obtain ⟨edAt, diliAt⟩ : ∃ mk, (edKey X).At X mk v ed ∧ (diliKey X).At X mk v dili := by
    cases provided with
    | none => exact ⟨⟨List.replicate 32 0, by simp⟩, identity _ (.inl rfl)⟩
    | some mk => exact ⟨mk, identity mk (.inr rfl)⟩
  rw [diliAt.1.unpublished_iff, diliAt.2.unpublished_iff]
  rfl

end

/-- After first starts that were cut short anywhere, a fault-free start succeeds unless
the policy is strict and some sealed seed has no public file; it then reports that.
Where it succeeds, the reported keys belong to the seeds that were sealed. -/
theorem start_after_crash {X : Crypto} {cached : Bool} {config : KeyManagerConfig} {w : World}
    (lawful : X.Lawful) (short : ShortKeys X) (crashed : FirstStart X cached config w) {pid : Nat}
    (unclaimed : Unclaimed w pid) {env : Env} (draws : ∀ mk, ∃ new, env.masterKey mk new = true)
    (accepted : Accepted env config) (tid : Tid) :
    Delivers (sem env tid) (startWithConfig X cached config) (w.restart pid) fun result _ =>
      match result with
      | .ok keys => (config.publicCachePolicy = .repairMissingOnly ∨ Published w.view) ∧
          ∀ mk (seed : Fixed 32), w.control.providerMk = some mk →
            (loadNode X (w.view edPriv) mk ktEdSeed = .ok seed.1 →
              keys.ed25519 = X.ed25519PubFromSeed seed) ∧
            (loadNode X (w.view diliPriv) mk ktDiliSeed = .ok seed.1 →
              keys.dilithium = X.mldsa87PubFromSeed seed)
      | .error e => (config.publicCachePolicy = .strict ∧ ¬ Published w.view) ∧
          ∃ keyType, e = .invalidPublicKey keyType "public_key_missing" := by
  obtain ⟨layout, ed, dili, fit, identity⟩ := crashed.founded lawful short
  have entering : Entering _ _ False [] (w.restart pid) := entering_restart layout (.inr unclaimed)
  have meets : Meets (Solo env tid (Begun X Stage.Honest _ _)) _ (startWithConfig X cached config)
      (w.restart pid) :=
    startWithConfig_spec lawful short honest_closed fit identity id (fun _ => accepted)
      (fun denies => absurd denies (Env.not_denies accepted.faultless _))
      (.of_faultless accepted.faultless) _ entering
  refine ⟨calls_return_drawing tid _ draws (startWithConfig_calls
    (fun op free => .inl (waits_of_special op free)) (fun _ => .inl rfl) (fun _ => .inl rfl) X (.inr rfl)
    (.inl rfl) cached config), fun result last returned => ?_⟩
  have ended := meets.returns (entering.1.1.begun entering.1.2 fit identity) returned
  match result, ended with
  | .ok keys, ended =>
    obtain ⟨mk, known, _, _, ⟨edNext, edSeed, edBecomes, _, edKnown, edDerived, _, edWhy⟩,
      diliNext, diliSeed, diliBecomes, _, diliKnown, diliDerived, _, diliWhy⟩ := ended
    refine ⟨?_, fun mk' seed provided => ⟨fun loads => ?_, fun loads => ?_⟩⟩
    · cases policy : config.publicCachePolicy with
      | repairMissingOnly => exact .inl rfl
      | strict =>
        rw [policy] at edWhy diliWhy
        exact .inr ((published_iff identity).mpr
          ⟨edWhy rfl, diliWhy rfl⟩)
    · have same := edBecomes.seed seed ((identity mk' (.inr provided)).1.seed_of_loads loads)
      rw [edKnown] at same
      rw [edDerived, Option.some.inj same]
      rfl
    · have same := diliBecomes.seed seed ((identity mk' (.inr provided)).2.seed_of_loads loads)
      rw [diliKnown] at same
      rw [diliDerived, Option.some.inj same]
      rfl
  | .error e, ended =>
    obtain ⟨mk, _, _, _, _, _, _, reason⟩ := ended.resolve_left id
    obtain ⟨_, refused⟩ := reason.resolve_left id
    have unpublished := (published_iff identity).not.mpr
    obtain (⟨⟨strict, lacking⟩, rfl⟩ | foreign) | ⟨⟨strict, lacking⟩, rfl⟩ | foreign := refused
    · exact ⟨⟨strict, unpublished fun published => published.1 lacking⟩, _, rfl⟩
    · exact absurd foreign (fit.1.not_foreign (edKey_regular short))
    · exact ⟨⟨strict, unpublished fun published => published.2 lacking⟩, _, rfl⟩
    · exact absurd foreign (fit.2.not_foreign (diliKey_regular short))

def blankWorld : World := ⟨FileSystem.empty, 1, [], ⟨none, none, false, [], none, false⟩⟩

def sampleConfig (policy : PublicCachePolicy) : KeyManagerConfig :=
  ⟨.require, .require, policy, 3600000000000, true, 65536, .linkNoReplace⟩

/-- The first start on the blank store, cut short after `n` calls. -/
def cutStart (policy : PublicCachePolicy) (n : Nat) : World :=
  (follow (exec (sampleEnv false) 0) (plainly 1 someLeaf) n 0
    (startWithConfig tagged false (sampleConfig policy)) (blankWorld.restart 1)).2

theorem blankWorld_blank : Blank blankWorld := by
  have only : blankWorld.fs.entries.keys.all fun path => !rootDir.isSuffixOf path := by decide +kernel
  refine ⟨rfl, fun path inside => ?_⟩
  by_contra present
  have outside := List.all_eq_true.mp only path (mem_keys_of_get present)
  rw [List.isSuffixOf_iff_suffix.mpr inside] at outside
  cases outside

theorem cutStart_crashed (policy : PublicCachePolicy) (n : Nat) :
    FirstStart tagged false (sampleConfig policy) (cutStart policy n) :=
  .crashed (.blank blankWorld_blank) (fun _ => rfl) (.of_faultless rfl) (follow_stops _ _ _ _ _ _)

/-- A crash after the first seed was sealed and before its public file was written:
under the strict policy the next start is refused. -/
theorem strict_start_refused :
    FirstStart tagged false (sampleConfig .strict) (cutStart .strict 34) ∧
      Unclaimed (cutStart .strict 34) 2 ∧
      ∃ w, Returns (sem (sampleEnv false) 0) (startWithConfig tagged false (sampleConfig .strict))
        ((cutStart .strict 34).restart 2)
        (.error (.invalidPublicKey ktEdSeed "public_key_missing")) w := by
  refine ⟨cutStart_crashed _ _, fun _ _ stamp => unclaimed_of_check (by decide +kernel) stamp, _,
    follow_returns (exec (sampleEnv false) 0) (plainly 1 someLeaf) 100 0 ?_⟩
  decide +kernel

/-- After the same crash under the repairing policy the next start succeeds. -/
theorem repairing_start_sample :
    Delivers (sem (sampleEnv false) 0)
      (startWithConfig tagged false (sampleConfig .repairMissingOnly))
      ((cutStart .repairMissingOnly 34).restart 2) fun result _ =>
      ∃ keys, result = .ok keys ∧ keys.ed25519 = (uniform 1).1 := by
  have short : ShortKeys tagged := fun seed => by simp [tagged, seed.2, maxKeyfileSize]
  have unclaimed : Unclaimed (cutStart .repairMissingOnly 34) 2 :=
    fun _ _ stamp => unclaimed_of_check (by decide +kernel) stamp
  obtain ⟨returns, ends⟩ := start_after_crash tagged_lawful short
    (cutStart_crashed .repairMissingOnly 34) unclaimed (sampleEnv_draws false) ⟨rfl, fun _ => by decide, by decide, by decide⟩ 0
  refine ⟨returns, fun result w returned => ?_⟩
  have ended := ends result w returned
  cases result with
  | ok keys =>
    obtain ⟨_, known⟩ := ended
    exact ⟨keys, rfl, (known (uniform 1) (uniform 1) (by decide +kernel)).1 (by decide +kernel)⟩
  | error e =>
    obtain ⟨⟨strict, _⟩, _⟩ := ended
    cases strict

end Lithium.Keys
