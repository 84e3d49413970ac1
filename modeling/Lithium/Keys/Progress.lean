import Lithium.Keys.Manager

/-! Which calls the programs make. Programs that take no lock run to their end, so
that a statement about all their results is about some result; and which
directories a program syncs is told by the paths it is given. -/
namespace Lithium.Keys
open Effects Storage

def special : Op → Bool
  | .lockRead | .unlockRead | .lockWrite | .unlockWrite | .random .masterKey | .syncDir _
  | .removeEntry _ | .arenaClaim _ => true
  | _ => false

def makesDirs : Op → Bool
  | .symlinkMetadata _ | .stat _ | .mkdir _ => true
  | _ => false

def reads : Op → Bool
  | .openRead _ | .random .dek | .random .salt | .random .nonce => true
  | _ => false

theorem not_special_of_makesDirs {op : Op} (makes : makesDirs op = true) : special op = false := by
  cases op <;> first | rfl | cases makes

theorem not_special_of_reads {op : Op} (looks : reads op = true) : special op = false := by
  cases op with
  | random use => cases use <;> first | rfl | cases looks
  | _ => first | rfl | cases looks

section
variable {allowed : Op → Prop} (free : ∀ op, special op = false → allowed op)

theorem io_calls {α : Type} (reply : Io α) : (io reply).Calls allowed := by
  cases reply <;> trivial

theorem randomFixed_calls {use : Draw} (draw : allowed (.random use)) :
    (randomFixed use).Calls allowed := by
  refine .bind (.perform draw) fun reply => ?_
  split <;> trivial

include free

theorem pathExists_calls (path : Path) : (pathExists path).Calls allowed :=
  .bind (.perform (free _ rfl)) fun _ => trivial

omit free in
theorem readKeyfileBytes_reads (path : Path) :
    (readKeyfileBytes path).Calls fun op : Op => reads op = true :=
  .bind (.perform rfl) fun _ => .bind (io_calls _) fun _ => .bind (.done _) fun _ => trivial

theorem readKeyfileBytes_calls (path : Path) : (readKeyfileBytes path).Calls allowed :=
  (readKeyfileBytes_reads path).mono fun op looks => free op (not_special_of_reads looks)

omit free in
theorem createDirAll_makesDirs (path : Path) :
    (createDirAll path).Calls fun op : Op => makesDirs op = true := by
  induction path with
  | nil => trivial
  | cons name dir ih =>
    have fallback : ∀ kind, ((isDir (name :: dir)).bind fun there =>
        if there then (pure () : Prog Unit) else throw (.io kind)).Calls
          fun op : Op => makesDirs op = true := fun kind =>
      .bind (.bind (.perform rfl) fun _ => trivial) fun _ => .ite trivial trivial
    refine .bind (.perform rfl) fun reply => ?_
    split
    · trivial
    · refine .bind ih fun _ => .bind (.perform rfl) fun reply => ?_
      split
      · trivial
      · exact fallback _
    · exact fallback _

omit free in
theorem ensurePrivateDir_makesDirs (path : Path) :
    (ensurePrivateDir path).Calls fun op : Op => makesDirs op = true := by
  refine .bind (.perform rfl) fun reply => ?_
  split
  · exact .ite trivial (.ite trivial trivial)
  · exact createDirAll_makesDirs path
  · trivial

omit free in
theorem ensureParent_makesDirs (path : Path) :
    (ensureParent path).Calls fun op : Op => makesDirs op = true := by
  cases path with
  | nil => trivial
  | cons name dir => exact ensurePrivateDir_makesDirs dir

theorem ensurePrivateDir_calls (path : Path) : (ensurePrivateDir path).Calls allowed :=
  (ensurePrivateDir_makesDirs path).mono fun op makes => free op (not_special_of_makesDirs makes)

theorem ensureParent_calls (path : Path) : (ensureParent path).Calls allowed :=
  (ensureParent_makesDirs path).mono fun op makes => free op (not_special_of_makesDirs makes)

theorem createPrivateTmp_calls (path : Path) : (createPrivateTmp path).Calls allowed := by
  unfold createPrivateTmp
  generalize 8 = tries
  induction tries with
  | zero => trivial
  | succ tries ih =>
    refine .bind (randomFixed_calls (free _ rfl)) fun suffix => .bind (.perform (free _ rfl))
      fun stamp => .bind (.perform (free _ rfl)) fun reply => ?_
    split
    · trivial
    · exact ih
    · trivial

theorem writeTmp_calls (tmp : Path) (data : Bytes) : (writeTmp tmp data).Calls allowed := by
  refine .bind (.attempt (.bind (.perform (free _ rfl)) fun _ => .bind (io_calls _) fun _ =>
    .bind (.perform (free _ rfl)) fun _ => io_calls _)) fun result => ?_
  split
  · trivial
  · exact .bind (.perform (free _ rfl)) fun _ => trivial

omit free in
theorem trySyncParent_calls {path : Path} (sync : allowed (.syncDir path.tail)) :
    (trySyncParent path).Calls allowed := by
  cases path with
  | nil => trivial
  | cons name dir => exact .bind (.perform sync) fun _ => trivial

theorem writeSecure_calls {path : Path} (sync : allowed (.syncDir path.tail)) (data : Bytes) :
    (writeSecure path data).Calls allowed :=
  .bind (ensureParent_calls free path) fun _ => .bind (createPrivateTmp_calls free path) fun _ =>
    .bind (writeTmp_calls free _ _) fun _ => .bind (.perform (free _ rfl)) fun _ =>
      .bind (io_calls _) fun _ => trySyncParent_calls sync

theorem writeSecureNew_calls {path : Path} (sync : allowed (.syncDir path.tail)) (data : Bytes) :
    (writeSecureNew path data).Calls allowed :=
  .bind (ensureParent_calls free path) fun _ => .bind (createPrivateTmp_calls free path) fun _ =>
    .bind (writeTmp_calls free _ _) fun _ => .bind (.perform (free _ rfl)) fun _ =>
      .bind (.perform (free _ rfl)) fun _ => .bind (io_calls _) fun _ => trySyncParent_calls sync

theorem writeSecureNewBestEffort_calls {path : Path} (sync : allowed (.syncDir path.tail))
    (data : Bytes) : (writeSecureNewBestEffort path data).Calls allowed := by
  refine .bind (ensureParent_calls free path) fun _ => .bind (.perform (free _ rfl)) fun _ =>
    .bind (io_calls _) fun _ => .ite trivial (.bind (createPrivateTmp_calls free path) fun _ =>
      .bind (writeTmp_calls free _ _) fun _ => .bind (.perform (free _ rfl)) fun reply => ?_)
  split
  · exact trySyncParent_calls sync
  · exact .bind (.perform (free _ rfl)) fun _ => trivial

theorem syncDir_calls {path : Path} (sync : allowed (.syncDir path)) :
    (syncDir path).Calls allowed :=
  .bind (pathExists_calls free path) fun _ => .ite (.bind (.perform sync) fun _ => io_calls _) trivial

theorem syncParent_calls {path : Path} (sync : allowed (.syncDir path.tail)) :
    (syncParent path).Calls allowed := by
  cases path with
  | nil => trivial
  | cons name dir => exact syncDir_calls free sync

theorem writeMarker_calls (path : Path) (sync : allowed (.syncDir path.tail)) (data : Bytes) :
    (writeMarker path data).Calls allowed :=
  .bind (writeSecure_calls free sync data) fun _ => syncParent_calls free sync

end

section
variable {allowed : Op → Prop} (free : ∀ op, special op = false → allowed op) (X : Crypto)
include free

omit free in
theorem encryptFresh_reads (key : Key) (plaintext aad : Bytes) :
    (encryptFresh X key plaintext aad).Calls fun op : Op => reads op = true := by
  refine .bind (randomFixed_calls rfl) fun nonce => ?_
  split <;> trivial

omit free in
theorem encodeEncrypted_reads (mk : Key) (payload : Bytes) (keyType : String) :
    (encodeEncrypted X mk payload keyType).Calls fun op : Op => reads op = true :=
  .bind (randomFixed_calls rfl) fun _ => .bind (randomFixed_calls rfl) fun _ =>
    .bind (encryptFresh_reads X _ _ _) fun _ => .bind (encryptFresh_reads X _ _ _) fun _ => trivial

theorem encodeEncrypted_calls (mk : Key) (payload : Bytes) (keyType : String) :
    (encodeEncrypted X mk payload keyType).Calls allowed :=
  (encodeEncrypted_reads X mk payload keyType).mono fun op looks =>
    free op (not_special_of_reads looks)

theorem saveBytesEncrypted_calls (path : Path) (sync : allowed (.syncDir path.tail)) (mk : Key)
    (payload : Bytes) (keyType : String) :
    (saveBytesEncrypted X path mk payload keyType).Calls allowed :=
  .bind (encodeEncrypted_calls free X _ _ _) fun _ => writeSecure_calls free sync _

theorem loadBytesDecrypted_calls (path : Path) (mk : Key) (keyType : String) :
    (loadBytesDecrypted X path mk keyType).Calls allowed :=
  .bind (readKeyfileBytes_calls free path) fun _ => .done _

theorem loadSecret32Decrypted_calls (path : Path) (mk : Key) (keyType : String) :
    (loadSecret32Decrypted X path mk keyType).Calls allowed :=
  .bind (loadBytesDecrypted_calls free X _ _ _) fun _ => .done _

omit free in
theorem rewrapKeyfileDekToBytes_reads (path : Path) (oldMk newMk : Key) (keyType : String) :
    (rewrapKeyfileDekToBytes X path oldMk newMk keyType).Calls fun op : Op => reads op = true :=
  .bind (readKeyfileBytes_reads path) fun _ => .bind (.done _) fun _ =>
    .bind (randomFixed_calls rfl) fun _ => .bind (encryptFresh_reads X _ _ _) fun _ => trivial

theorem rewrapKeyfileDekToBytes_calls (path : Path) (oldMk newMk : Key) (keyType : String) :
    (rewrapKeyfileDekToBytes X path oldMk newMk keyType).Calls allowed :=
  (rewrapKeyfileDekToBytes_reads X path oldMk newMk keyType).mono fun op looks =>
    free op (not_special_of_reads looks)

theorem rewrapKeyfileDek_calls (path : Path) (sync : allowed (.syncDir path.tail))
    (oldMk newMk : Key) (keyType : String) :
    (rewrapKeyfileDek X path oldMk newMk keyType).Calls allowed :=
  .bind (rewrapKeyfileDekToBytes_calls free X _ _ _ _) fun _ => writeSecure_calls free sync _

end

section
variable {allowed : Op → Prop} (free : ∀ op, special op = false → allowed op)
include free

theorem keyfilesAmong_calls (entries : List Path) : (keyfilesAmong entries).Calls allowed := by
  induction entries with
  | nil => trivial
  | cons path rest ih => exact .bind (.perform (free _ rfl)) fun _ => .bind ih fun _ => trivial

theorem listDirKeyfiles_calls (dir : Path) : (listDirKeyfiles dir).Calls allowed :=
  .bind (pathExists_calls free dir) fun _ => .ite (.bind (.perform (free _ rfl)) fun _ =>
    .bind (io_calls _) fun _ => .bind (keyfilesAmong_calls free _) fun _ => trivial) trivial

theorem fixedTarget_calls (path : Path) (keyType : String) :
    (fixedTarget path keyType).Calls allowed :=
  .bind (pathExists_calls free path) fun _ => .ite (.bind (.done _) fun _ => trivial) trivial

theorem collectRewrapTargets_calls : collectRewrapTargets.Calls allowed :=
  .bind (fixedTarget_calls free _ _) fun _ => .bind (fixedTarget_calls free _ _) fun _ =>
    .bind (listDirKeyfiles_calls free _) fun _ => .bind (.done _) fun _ => trivial

theorem loadMk_calls : loadMk.Calls allowed := .bind (.perform (free _ rfl)) fun _ => .done _

theorem storeMk_calls (mk : Key) : (storeMk mk).Calls allowed :=
  .bind (.perform (free _ rfl)) fun _ => .done _

theorem setPoisoned_calls : setPoisoned.Calls allowed :=
  .bind (.perform (free _ rfl)) fun _ => trivial

end

theorem staged_parent (relativePath : Path) : rotateDir <:+ (stageTargetPath relativePath).tail := by
  cases relativePath with
  | nil => exact List.suffix_rfl
  | cons name dir => exact ⟨dir ++ [plain "staged"], by simp [stageTargetPath, stagedDir]⟩

section
variable {allowed : Op → Prop} (free : ∀ op, special op = false → allowed op)
  (sync : ∀ dir, rotateDir <:+ dir → allowed (.syncDir dir)) (X : Crypto)
include free sync

theorem stageFiles_calls (oldMk newMk : Key) (targets : List RewrapTarget) :
    (stageFiles X oldMk newMk targets).Calls allowed := by
  induction targets with
  | nil => trivial
  | cons target rest ih =>
    have inside := sync _ (staged_parent target.relativePath)
    exact .bind (rewrapKeyfileDekToBytes_calls free X _ _ _ _) fun _ =>
      .bind (ensureParent_calls free _) fun _ => .bind (writeSecure_calls free inside _) fun _ =>
        .bind (syncParent_calls free inside) fun _ => ih

theorem saveNextMk_calls (oldMk newMk : Key) : (saveNextMk X oldMk newMk).Calls allowed :=
  .bind (saveBytesEncrypted_calls free X nextOldPath (sync _ List.suffix_rfl) _ _ _) fun _ =>
    saveBytesEncrypted_calls free X nextNewPath (sync _ List.suffix_rfl) _ _ _

theorem fillRotationDir_calls (draw : allowed (.random .masterKey)) :
    (fillRotationDir X).Calls allowed := by
  have itself := syncDir_calls free (sync rotateDir List.suffix_rfl)
  have stage : ∀ old new targets, (prepareStagedFiles X old new targets).Calls allowed :=
    fun _ _ _ => .bind (ensurePrivateDir_calls free _) fun _ =>
      .bind (stageFiles_calls free sync X _ _ _) fun _ =>
        syncDir_calls free (sync stagedDir ⟨[plain "staged"], rfl⟩)
  exact .bind itself fun _ => .bind (loadMk_calls free) fun _ =>
    .bind (randomFixed_calls draw) fun _ => .bind (collectRewrapTargets_calls free) fun _ =>
      .bind (saveNextMk_calls free sync X _ _) fun _ => .bind itself fun _ =>
        .bind (stage _ _ _) fun _ =>
          .bind (writeMarker_calls free readyPath (sync _ List.suffix_rfl) _) fun _ => trivial

end

section
variable {allowed : Op → Prop} (free : ∀ op, special op = false → allowed op)
  (sync : ∀ dir, allowed (.syncDir dir)) (remove : ∀ root, allowed (.removeEntry root)) (X : Crypto)
include free sync

theorem applyStagedFiles_calls (targets : List RewrapTarget) :
    (applyStagedFiles targets).Calls allowed := by
  induction targets with
  | nil => trivial
  | cons target rest ih =>
    exact .bind (readKeyfileBytes_calls free _) fun _ => .bind (writeSecure_calls free (sync _) _)
      fun _ => .bind (syncParent_calls free (sync _)) fun _ => ih

include remove

theorem cleanupRotationDir_calls : cleanupRotationDir.Calls allowed := by
  have entries : ∀ n, (removeEntries rotateDir n).Calls allowed := fun n => by
    induction n with
    | zero => trivial
    | succ n ih => exact .bind (.perform (remove _)) fun _ => .bind (io_calls _) fun _ => ih
  exact .bind (pathExists_calls free _) fun _ => .ite (.bind (.bind (.perform (free _ rfl)) fun _ =>
    .bind (io_calls _) fun n => entries n) fun _ => syncParent_calls free (sync _)) trivial

omit sync remove in
theorem nextMk_calls (currentMk : Key) : (nextMk X currentMk).Calls allowed := by
  have fromOld : ((loadSecret32Decrypted X nextOldPath currentMk ktRotateNextOld).bind
      fun candidate => (.done (.ok (candidate, false)) : Prog (Key × Bool))).Calls allowed :=
    .bind (loadSecret32Decrypted_calls free X _ _ _) fun _ => trivial
  refine .bind (pathExists_calls free _) fun _ => .ite (.bind (.attempt
    (loadSecret32Decrypted_calls free X _ _ _)) fun result => ?_) fromOld
  split
  · trivial
  · exact fromOld

theorem recoverPendingRotationIfAny_calls : (recoverPendingRotationIfAny X).Calls allowed := by
  have clean := cleanupRotationDir_calls free sync remove
  have finish : (finishPendingRotation X).Calls allowed := by
    refine .bind (collectRewrapTargets_calls free) fun _ => .bind (loadMk_calls free) fun _ =>
      .bind (nextMk_calls free X _) fun _ => .bind (applyStagedFiles_calls free sync _)
        fun _ => ?_
    split
    · exact clean
    · exact .bind (storeMk_calls free _) fun _ => clean
  exact .bind (pathExists_calls free _) fun _ => .ite (.bind (pathExists_calls free _) fun _ =>
    .ite finish clean) trivial

theorem commitRotation_calls (targets : List RewrapTarget) (newMk : Key) :
    (commitRotation X targets newMk).Calls allowed := by
  refine .bind (.attempt (.bind (applyStagedFiles_calls free sync _) fun _ =>
    .bind (storeMk_calls free _) fun _ => cleanupRotationDir_calls free sync remove)) fun result => ?_
  split
  · trivial
  · refine .bind (.attempt (recoverPendingRotationIfAny_calls free sync remove X)) fun result => ?_
    split
    · trivial
    · exact .bind (setPoisoned_calls free) fun _ => trivial

theorem prepareRotation_calls (draw : allowed (.random .masterKey)) :
    (prepareRotation X).Calls allowed :=
  .bind (cleanupRotationDir_calls free sync remove) fun _ =>
    .bind (ensurePrivateDir_calls free _) fun _ =>
      fillRotationDir_calls free (fun dir _ => sync dir) X draw

theorem rotateLocked_calls (draw : allowed (.random .masterKey)) (claim : allowed (.arenaClaim 32))
    (cached : Bool) : (rotateLocked X cached).Calls allowed := by
  refine .bind (recoverPendingRotationIfAny_calls free sync remove X) fun _ =>
    .bind (prepareRotation_calls free sync remove X draw) fun _ =>
      .bind (commitRotation_calls free sync remove X _ _) fun _ => .ite (.bind (.attempt
        (.bind (loadMk_calls free) fun _ => .bind (.perform claim) fun _ => .bind (.done _)
          fun _ => .bind (.perform (free _ rfl)) fun _ => trivial)) fun result => ?_) trivial
  split
  · trivial
  · exact .bind (setPoisoned_calls free) fun _ => trivial

theorem rotateNow_calls (draw : allowed (.random .masterKey)) (claim : allowed (.arenaClaim 32))
    (ask : allowed .lockWrite) (release : allowed .unlockWrite) (cached : Bool) :
    (rotateNow X cached).Calls allowed :=
  .bind (.perform ask) fun _ =>
    .bind (.attempt (rotateLocked_calls free sync remove X draw claim cached)) fun _ =>
      .bind (.bind (.perform release) fun _ => trivial) fun _ => trivial

end

section
variable {allowed : Op → Prop} (free : ∀ op, special op = false → allowed op)
  (sync : ∀ dir, allowed (.syncDir dir)) (remove : ∀ root, allowed (.removeEntry root)) (X : Crypto)
include free

theorem acquireExclusiveLock_calls (policy : FileLockPolicy) :
    (acquireExclusiveLock policy).Calls allowed := by
  refine .bind (.perform (free _ rfl)) fun _ => .bind (io_calls _) fun _ =>
    .bind (.perform (free _ rfl)) fun reply => ?_
  split
  · trivial
  · trivial
  · split <;> trivial

theorem scheduleRotation_calls (config : KeyManagerConfig) :
    (scheduleRotation config).Calls allowed :=
  .bind (.perform (free _ rfl)) fun _ => .ite (.ite (.bind (.perform (free _ rfl)) fun _ => io_calls _)
    trivial) trivial

theorem checkLive_calls : checkLive.Calls allowed :=
  .bind (.perform (free _ rfl)) fun _ => .ite trivial trivial

theorem currentMk_calls (cached : Bool) : (currentMk cached).Calls allowed := by
  refine .ite (.bind (.perform (free _ rfl)) fun kept => ?_) (loadMk_calls free)
  split <;> trivial

theorem cacheMk_calls (claim : allowed (.arenaClaim 32)) (cached : Bool) (mk : Key) :
    (cacheMk cached mk).Calls allowed :=
  .ite (.bind (.perform claim) fun _ => .bind (.done _) fun _ =>
    .bind (.perform (free _ rfl)) fun _ => trivial) trivial

theorem ensureMk_calls (draw : allowed (.random .masterKey)) : ensureMk.Calls allowed := by
  refine .bind (.attempt (loadMk_calls free)) fun result => ?_
  split
  · trivial
  · exact .ite (.bind (randomFixed_calls draw) fun _ => storeMk_calls free _) trivial

include sync

theorem writePublicKey_calls (path : Path) (publicKey : Bytes) :
    (writePublicKey path publicKey).Calls allowed :=
  .bind (writeSecure_calls free (sync _) _) fun _ => syncParent_calls free (sync _)

theorem saveNew_calls (mk : Key) (label payload : Bytes) (mode : CreateNewMode) :
    (match mode with
      | .linkNoReplace =>
        saveBytesEncryptedNew X (labelSecretPath label) mk payload (labelKeyType label)
      | .renameBestEffort =>
        saveBytesEncryptedNewBestEffort X (labelSecretPath label) mk payload (labelKeyType label)
      : Prog Unit).Calls allowed := by
  cases mode with
  | linkNoReplace =>
    exact .bind (encodeEncrypted_calls free X _ _ _) fun _ => writeSecureNew_calls free (sync _) _
  | renameBestEffort =>
    exact .bind (encodeEncrypted_calls free X _ _ _) fun _ =>
      writeSecureNewBestEffort_calls free (sync _) _

theorem loadOrCreateLabelSecret32_calls (mk : Key) (label : Bytes) (mode : CreateNewMode) :
    (loadOrCreateLabelSecret32 X mk label mode).Calls allowed := by
  have load := loadSecret32Decrypted_calls free X (labelSecretPath label) mk (labelKeyType label)
  refine .bind (.done _) fun _ => .bind (pathExists_calls free _) fun _ => .ite load ?_
  refine .bind (randomFixed_calls (free _ rfl)) fun v =>
    .bind (.attempt (saveNew_calls free sync X mk label v.1 mode)) fun saved => ?_
  split
  · trivial
  · exact .ite load trivial

theorem loadOrCreateLabelBytes_calls (mk : Key) (label : Bytes) (generate : Except LithiumError Bytes)
    (mode : CreateNewMode) : (loadOrCreateLabelBytes X mk label generate mode).Calls allowed := by
  have load := loadBytesDecrypted_calls free X (labelSecretPath label) mk (labelKeyType label)
  refine .bind (.done _) fun _ => .bind (pathExists_calls free _) fun _ => .ite load ?_
  refine .bind (.done _) fun v =>
    .bind (.attempt (saveNew_calls free sync X mk label v mode)) fun saved => ?_
  split
  · trivial
  · exact .ite load trivial

theorem reconcilePublicCache_calls (path : Path) (authoritative : Bytes) (policy : PublicCachePolicy)
    (keyType : String) : (reconcilePublicCache path authoritative policy keyType).Calls allowed := by
  refine .bind (.attempt (readKeyfileBytes_calls free path)) fun result => ?_
  split
  · exact .ite trivial trivial
  · refine .ite ?_ trivial
    split
    · trivial
    · exact writePublicKey_calls free sync _ _

theorem ensureSeedKeypair_calls (claim : allowed (.arenaClaim 32)) (priv pub : Path) (mk : Key) (keyType : String)
    (policy : PublicCachePolicy) (pubFromSeed : Fixed 32 → Bytes) :
    (ensureSeedKeypair X priv pub mk keyType policy pubFromSeed).Calls allowed := by
  refine .bind (pathExists_calls free _) fun _ => .ite (.bind (loadBytesDecrypted_calls free X _ _ _)
    fun _ => .bind (.done _) fun _ => .bind (.perform claim) fun _ => .bind (.done _) fun _ =>
      .bind (reconcilePublicCache_calls free sync _ _ _ _) fun _ => trivial)
    (.bind (.attempt (readKeyfileBytes_calls free _)) fun result => ?_)
  split
  · trivial
  · exact .ite (.bind (.perform claim) fun _ => .bind (.done _) fun _ =>
      .bind (randomFixed_calls (free _ rfl)) fun _ =>
        .bind (saveBytesEncrypted_calls free X _ (sync _) _ _ _) fun _ =>
          .bind (writePublicKey_calls free sync _ _) fun _ => trivial) trivial

theorem ensureAsymmetricMaterial_calls (claim : allowed (.arenaClaim 32)) (mk : Key)
    (policy : PublicCachePolicy) : (ensureAsymmetricMaterial X mk policy).Calls allowed :=
  .bind (ensurePrivateDir_calls free _) fun _ => .bind (ensurePrivateDir_calls free _) fun _ =>
    .bind (ensureSeedKeypair_calls free sync X claim _ _ _ _ _ _) fun _ =>
      .bind (ensureSeedKeypair_calls free sync X claim _ _ _ _ _ _) fun _ => trivial

theorem reloadPublicKeys_calls (claim : allowed (.arenaClaim 32)) (policy : PublicCachePolicy)
    (keys : PublicKeys) :
    (reloadPublicKeys X policy keys).Calls allowed := by
  refine .bind (.attempt (.bind (checkLive_calls free) fun _ => .bind (loadMk_calls free) fun _ =>
    ensureAsymmetricMaterial_calls free sync X claim _ _)) fun result => ?_
  split <;> trivial

include remove

theorem startWithConfig_calls (draw : allowed (.random .masterKey))
    (claim : allowed (.arenaClaim 32)) (cached : Bool) (config : KeyManagerConfig) :
    (startWithConfig X cached config).Calls allowed :=
  .ite trivial (.bind (ensurePrivateDir_calls free _) fun _ =>
    .bind (ensurePrivateDir_calls free _) fun _ => .bind (ensurePrivateDir_calls free _) fun _ =>
      .bind (ensurePrivateDir_calls free _) fun _ => .bind (acquireExclusiveLock_calls free _) fun _ =>
        .bind (ensureMk_calls free draw) fun _ =>
          .bind (recoverPendingRotationIfAny_calls free sync remove X) fun _ =>
            .bind (loadMk_calls free) fun _ => .bind (.perform (free _ rfl)) fun _ =>
              .bind (.done _) fun _ => .bind (ensureAsymmetricMaterial_calls free sync X claim _ _) fun _ =>
                .bind (cacheMk_calls free claim _ _) fun _ => .bind (scheduleRotation_calls free _)
                  fun _ => trivial)

end

/-- The calls that may find no outcome: a lock can be taken, and no master key may
be left to draw. -/
def waits : Op → Bool
  | .lockRead | .lockWrite | .random .masterKey => true
  | _ => false

theorem waits_of_special (op : Op) (free : special op = false) : waits op = false := by
  cases op with
  | random use => cases use <;> first | rfl | cases free
  | _ => first | rfl | cases free

/-- Every other call has some outcome. -/
theorem sem_serial {env : Env} (tid : Tid) (op : Op) (w : World)
    (outcome : waits op = false ∨
      op = .random .masterKey ∧ ∀ mk, ∃ new, env.masterKey mk new = true) :
    ∃ reply w', sem env tid op w reply w' := by
  suffices ∃ choice : Choice, choice.fault = none ∧ (effect env tid choice op w).isSome = true by
    obtain ⟨choice, faultless, effected⟩ := this
    obtain ⟨⟨reply, w'⟩, effected⟩ := Option.isSome_iff_exists.mp effected
    exact ⟨reply, w', choice, by simp only [exec, faultless, effected]⟩
  cases op with
  | lockRead | lockWrite => simp [waits] at outcome
  | random use =>
    obtain ⟨value, admitted⟩ : ∃ value, env.admits w.control.providerMk use value = true := by
      cases use with
      | masterKey =>
        obtain free | ⟨_, draws⟩ := outcome
        · cases free
        · exact draws _
      | _ => exact ⟨⟨List.replicate _ 0, List.length_replicate⟩, rfl⟩
    refine ⟨⟨none, value.1, [], 0⟩, rfl, ?_⟩
    simp only [effect, dif_pos value.2]
    exact (congrArg Option.isSome (if_pos admitted)).trans rfl
  | removeEntry root =>
    by_cases empty : w.fs.below root = []
    · exact ⟨⟨none, [], [], 0⟩, rfl, by simp [effect, empty]⟩
    · obtain ⟨path, fs, removed⟩ := w.fs.exists_removeEntry root empty
      exact ⟨⟨none, [], path, 0⟩, rfl, by simp [effect, empty, removed]⟩
  | _ =>
    refine ⟨⟨none, [], [], 0⟩, rfl, ?_⟩
    simp only [effect]
    first | rfl | (split <;> rfl)

/-- A program whose calls all have an outcome returns. -/
theorem calls_return {env : Env} {α : Type} (tid : Tid) (w : World) {program : Prog α}
    (calls : program.Calls fun op => waits op = false) :
    ∃ result w', Returns (sem env tid) program w result w' :=
  exists_returns w calls fun op w free => sem_serial tid op w (.inl free)

theorem calls_return_drawing {env : Env} {α : Type} (tid : Tid) (w : World) {program : Prog α}
    (draws : ∀ mk, ∃ new, env.masterKey mk new = true)
    (calls : program.Calls fun op => waits op = false ∨ op = Op.random .masterKey) :
    ∃ result w', Returns (sem env tid) program w result w' :=
  exists_returns w calls fun op w free => sem_serial tid op w (free.imp_right fun same => ⟨same, draws⟩)

end Lithium.Keys
