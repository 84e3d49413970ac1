import Lithium.Crypto.Sample
import Lithium.HexCodec
import Lithium.Utils.Store

/-! Linearizability of the store with stale clocks. The value a key holds is defined from
the lock sections alone, in lock order. The map mirrors it: an entry is the current value,
and a key without an entry has no current value that is still alive. -/
namespace Lithium.Utils
open Keys (Bytes Fixed Key LithiumError)
open Crypto

/-- A value written in the lock section number `index`. -/
structure Written where
  key : Bytes
  value : Bytes
  expires : Nat
  index : Nat

/-- What an effective write put where. -/
def Section.writes (ran : Section) (index : Nat) : Option Written :=
  match ran.call, ran.reply with
  | .set key value ttl, .done => some ⟨key, value, ran.clock + ttl, index⟩
  | .setIfAbsent key value ttl, .stored true => some ⟨key, value, ran.clock + ttl, index⟩
  | _, _ => none

def Section.removes (ran : Section) : Option Bytes :=
  match ran.call, ran.reply with
  | .take key, .value _ => some key
  | .del key, .done => some key
  | _, _ => none

/-- The current value of a key: that of the last effective write, unless the key was
removed since. Sections are listed latest first. -/
def current : List Section → Bytes → Option Written
  | [], _ => none
  | ran :: earlier, key =>
    match ran.writes earlier.length with
    | some written => if written.key = key then some written else current earlier key
    | none => if ran.removes = some key then none else current earlier key

/-- What the reply of a section says about the current value of its key before it. -/
def Section.Linear (ran : Section) (earlier : List Section) : Prop :=
  match ran.call, ran.reply with
  | .peek key, .value (some value) | .take key, .value (some value) =>
    ∃ written, current earlier key = some written ∧ written.value = value ∧
      ran.clock < written.expires
  | .peek key, .value none | .take key, .value none | .setIfAbsent key _ _, .stored true =>
    ∀ written, current earlier key = some written → written.expires ≤ ran.locked
  | .setIfAbsent key _ _, .stored false =>
    ∃ written, current earlier key = some written ∧ ran.clock < written.expires
  | _, _ => True

theorem writes_index {ran : Section} {index : Nat} {written : Written}
    (wrote : ran.writes index = some written) :
    written.index = index ∧ ran.call.key = written.key := by
  rw [Section.writes] at wrote
  split at wrote
  · rename_i call _
    cases wrote
    exact ⟨rfl, by rw [call]; rfl⟩
  · rename_i call _
    cases wrote
    exact ⟨rfl, by rw [call]; rfl⟩
  · cases wrote

/-- The current value of a key was written for that key, by a section of the history. -/
theorem current_written {history : List Section} {key : Bytes} {written : Written}
    (holds : current history key = some written) :
    written.key = key ∧ ∃ ran, history.reverse[written.index]? = some ran ∧
      ran.writes written.index = some written := by
  induction history with
  | nil => cases holds
  | cons ran earlier ih =>
    have older : current earlier key = some written →
        written.key = key ∧ ∃ ran', (ran :: earlier).reverse[written.index]? = some ran' ∧
          ran'.writes written.index = some written := by
      intro holds
      obtain ⟨same, ran', found, wrote⟩ := ih holds
      have below : written.index < earlier.reverse.length := (List.getElem?_eq_some_iff.mp found).1
      refine ⟨same, ran', ?_, wrote⟩
      rw [List.reverse_cons, List.getElem?_append_left below, found]
    rw [current] at holds
    cases wrote : ran.writes earlier.length with
    | none =>
      simp only [wrote] at holds
      split at holds
      · cases holds
      · exact older holds
    | some latest =>
      simp only [wrote] at holds
      split at holds
      · rename_i same
        cases holds
        have index := (writes_index wrote).1
        refine ⟨same, ran, ?_, by rw [index, wrote]⟩
        rw [List.reverse_cons, index, ← List.length_reverse, List.getElem?_concat_length]
      · exact older holds

theorem current_unique {history history' : List Section} {key key' : Bytes} {one other : Written}
    (holds : current history key = some one) (holds' : current history' key' = some other)
    (extends_ : history <:+ history') (same : one.index = other.index) : one = other := by
  obtain ⟨-, ran, found, wrote⟩ := current_written holds
  obtain ⟨-, ran', found', wrote'⟩ := current_written holds'
  obtain ⟨later, rfl⟩ := extends_
  have below : other.index < history.reverse.length := same ▸ (List.getElem?_eq_some_iff.mp found).1
  rw [List.reverse_append, List.getElem?_append_left below, ← same, found] at found'
  cases found'
  rw [same, wrote'] at wrote
  cases wrote
  rfl

/-- A value that is current although its key was removed was written after that. -/
theorem current_after_removal {later earlier : List Section} {ran : Section} {key : Bytes}
    {written : Written} (removed : ran.removes = some key) (silent : ran.writes earlier.length = none)
    (holds : current (later ++ ran :: earlier) key = some written) :
    earlier.length < written.index := by
  induction later with
  | nil =>
    rw [List.nil_append, current, silent] at holds
    simp only [removed] at holds
    cases holds
  | cons latest later ih =>
    rw [List.cons_append, current] at holds
    cases wrote : latest.writes (later ++ ran :: earlier).length with
    | none =>
      simp only [wrote] at holds
      split at holds
      · cases holds
      · exact ih holds
    | some newest =>
      simp only [wrote] at holds
      split at holds
      · cases holds
        rw [(writes_index wrote).1, List.length_append, List.length_cons]
        omega
      · exact ih holds

section
variable {X : Suite} {used : Bytes → Prop} {storeKey : Key}

/-- SHA-256 does not collide on the keys in use. -/
def HashesApart (X : Suite) (used : Bytes → Prop) : Prop :=
  ∀ key key', used key → used key' → X.sha256 key = X.sha256 key' → key = key'

theorem HashesApart.hkey_ne (apart : HashesApart X used) {key key' : Bytes} (known : used key)
    (known' : used key') (different : key ≠ key') :
    hashSha256Hex X key ≠ hashSha256Hex X key' := by
  intro same
  exact different (apart key key' known known' (Subtype.ext (HexCodec.hexEncode_inj (Wire.utf8_inj.mp same))))

/-- The map holds the current value of every key in use, or nothing if there is none that
outlives `now`. -/
structure Mirrors (X : Suite) (used : Bytes → Prop) (storeKey : Key) (history : List Section)
    (now : Nat) (map : AList fun _ : Bytes => StoreEntry) : Prop where
  held : ∀ key entry, used key → map.lookup (hashSha256Hex X key) = some entry →
    ∃ written, current history key = some written ∧
      unsealValue X storeKey (hashSha256Hex X key) entry.ciphertext = .ok written.value ∧
      entry.expiresAt = written.expires
  gone : ∀ key written, used key → map.lookup (hashSha256Hex X key) = none →
    current history key = some written → written.expires ≤ now

/-- The second map lacks some entries of the first that had expired at `now`. -/
def Shrunk (now : Nat) (map map' : AList fun _ : Bytes => StoreEntry) : Prop :=
  ∀ hkey, map'.lookup hkey = map.lookup hkey ∨
    map'.lookup hkey = none ∧ ∃ entry, map.lookup hkey = some entry ∧ entry.expiresAt ≤ now

theorem Shrunk.refl (now : Nat) (map : AList fun _ : Bytes => StoreEntry) : Shrunk now map map :=
  fun _ => .inl rfl

theorem Shrunk.erase {now : Nat} {map map' : AList fun _ : Bytes => StoreEntry} {hkey : Bytes}
    {entry : StoreEntry} (found : map.lookup hkey = some entry) (expired : entry.expiresAt ≤ now)
    (rest : Shrunk now (map.erase hkey) map') : Shrunk now map map' := by
  intro other
  by_cases same : other = hkey
  · subst same
    refine .inr ⟨?_, entry, found, expired⟩
    rcases rest other with kept | ⟨none, -⟩
    · rw [kept, AList.lookup_erase]
    · exact none
  · rcases rest other with kept | ⟨none, entry', found', expired'⟩
    · exact .inl (by rw [kept, AList.lookup_erase_ne same])
    · rw [AList.lookup_erase_ne same] at found'
      exact .inr ⟨none, entry', found', expired'⟩

/-- A sweep removes expired entries only, whatever the heap holds. -/
theorem sweepHeap_shrunk (now : Nat) (heap : List HeapEntry)
    (map : AList fun _ : Bytes => StoreEntry) : Shrunk now map (sweepHeap now heap map).2 := by
  induction heap generalizing map with
  | nil => exact .refl now map
  | cons top rest ih =>
    rw [sweepHeap]
    split
    · exact .refl now map
    · cases found : map.lookup top.key with
      | none => exact ih map
      | some cur =>
        dsimp only
        split
        · rename_i outdated
          exact .erase found outdated.2 (ih _)
        · exact ih map

theorem sweepExpired_shrunk (now : Nat) (inner : StoreInner) :
    Shrunk now inner.map (sweepExpired now inner).map := sweepHeap_shrunk now inner.heap inner.map

namespace Mirrors
variable {history : List Section} {now : Nat} {map map' : AList fun _ : Bytes => StoreEntry}

theorem later {now' : Nat} (mirrors : Mirrors X used storeKey history now map)
    (forward : now ≤ now') : Mirrors X used storeKey history now' map where
  held := mirrors.held
  gone key written known none holds :=
    Nat.le_trans (mirrors.gone key written known none holds) forward

theorem shrunk {time : Nat} (mirrors : Mirrors X used storeKey history now map)
    (less : Shrunk time map map') (past : time ≤ now) :
    Mirrors X used storeKey history now map' where
  held key entry known found := by
    rcases less (hashSha256Hex X key) with kept | ⟨none, -⟩
    · exact mirrors.held key entry known (kept ▸ found)
    · rw [none] at found
      cases found
  gone key written known none holds := by
    rcases less (hashSha256Hex X key) with kept | ⟨-, entry, found, expired⟩
    · exact mirrors.gone key written known (kept ▸ none) holds
    · obtain ⟨written', holds', -, expires⟩ := mirrors.held key entry known found
      rw [holds] at holds'
      cases holds'
      omega

/-- An entry that has expired is no current value that outlives `now`. -/
theorem expired (mirrors : Mirrors X used storeKey history now map) {key : Bytes}
    {entry : StoreEntry} (known : used key)
    (found : map.lookup (hashSha256Hex X key) = some entry) (past : entry.expiresAt ≤ now) :
    ∀ written, current history key = some written → written.expires ≤ now := by
  intro written holds
  obtain ⟨written', holds', -, expires⟩ := mirrors.held key entry known found
  rw [holds] at holds'
  cases holds'
  omega

theorem skip (mirrors : Mirrors X used storeKey history now map) {ran : Section}
    (silent : ran.writes history.length = none) (keeps : ran.removes = none) :
    Mirrors X used storeKey (ran :: history) now map := by
  have same : ∀ key, current (ran :: history) key = current history key := by
    intro key
    rw [current, silent]
    simp [keeps]
  exact ⟨fun key => same key ▸ mirrors.held key, fun key => same key ▸ mirrors.gone key⟩

theorem erase (mirrors : Mirrors X used storeKey history now map) (apart : HashesApart X used)
    {ran : Section} {key : Bytes} (known : used key) (silent : ran.writes history.length = none)
    (removes : ran.removes = some key) :
    Mirrors X used storeKey (ran :: history) now (map.erase (hashSha256Hex X key)) := by
  have holds : ∀ other, current (ran :: history) other =
      if key = other then none else current history other := by
    intro other
    rw [current, silent]
    simp [removes]
  constructor
  · intro other entry known' found
    by_cases same : key = other
    · subst same
      rw [AList.lookup_erase] at found
      cases found
    · rw [AList.lookup_erase_ne (apart.hkey_ne known' known (Ne.symm same))] at found
      rw [holds, if_neg same]
      exact mirrors.held other entry known' found
  · intro other written known' none wrote
    rw [holds] at wrote
    by_cases same : key = other
    · rw [if_pos same] at wrote
      cases wrote
    · rw [if_neg same] at wrote
      rw [AList.lookup_erase_ne (apart.hkey_ne known' known (Ne.symm same))] at none
      exact mirrors.gone other written known' none wrote

theorem insert (mirrors : Mirrors X used storeKey history now map) (apart : HashesApart X used)
    {ran : Section} {written : Written} {entry : StoreEntry} (known : used written.key)
    (wrote : ran.writes history.length = some written)
    (opens : unsealValue X storeKey (hashSha256Hex X written.key) entry.ciphertext =
      .ok written.value)
    (expires : entry.expiresAt = written.expires) :
    Mirrors X used storeKey (ran :: history) now
      (map.insert (hashSha256Hex X written.key) entry) := by
  have holds : ∀ other, current (ran :: history) other =
      if written.key = other then some written else current history other := by
    intro other
    rw [current, wrote]
  constructor
  · intro other entry' known' found
    rw [holds]
    by_cases same : written.key = other
    · subst same
      rw [AList.lookup_insert] at found
      cases found
      exact ⟨written, if_pos rfl, opens, expires⟩
    · rw [AList.lookup_insert_ne (apart.hkey_ne known' known (Ne.symm same))] at found
      rw [if_neg same]
      exact mirrors.held other entry' known' found
  · intro other written' known' none wrote'
    rw [holds] at wrote'
    by_cases same : written.key = other
    · subst same
      rw [AList.lookup_insert] at none
      cases none
    · rw [if_neg same] at wrote'
      rw [AList.lookup_insert_ne (apart.hkey_ne known' known (Ne.symm same))] at none
      exact mirrors.gone other written' known' none wrote'

end Mirrors

/-- A call that waits for the lock, as its own prelude left it. -/
inductive Begun (X : Suite) (storeKey : Key) (clock : Nat) : Call → Prepared → Prop
  | set {key value ciphertext : Bytes} {ttl : Nat}
      (opens : unsealValue X storeKey (hashSha256Hex X key) ciphertext = .ok value) :
    Begun X storeKey clock (.set key value ttl)
      (.set clock (hashSha256Hex X key) ciphertext (clock + ttl))
  | setIfAbsent {key value ciphertext : Bytes} {ttl : Nat}
      (opens : unsealValue X storeKey (hashSha256Hex X key) ciphertext = .ok value) :
    Begun X storeKey clock (.setIfAbsent key value ttl)
      (.setIfAbsent clock (hashSha256Hex X key) ciphertext (clock + ttl))
  | peek {key : Bytes} : Begun X storeKey clock (.peek key) (.peek clock (hashSha256Hex X key))
  | take {key : Bytes} : Begun X storeKey clock (.take key) (.take clock (hashSha256Hex X key))
  | del {key : Bytes} : Begun X storeKey clock (.del key) (.del (hashSha256Hex X key))

theorem prepare_begun (correct : X.AeadCorrect) {latest now : Nat} {nonce : Draw 12} {call : Call}
    {prepared : Prepared} (ready : prepare X latest now storeKey nonce call = .ok prepared) :
    Begun X storeKey now call prepared := by
  cases call with
  | set key value ttl =>
    simp only [prepare] at ready
    split at ready
    · cases ready
    · split at ready
      · cases ready
      · rename_i written
        cases ready
        obtain ⟨rfl, rfl, sealed⟩ := prepareWrite_eq_ok X written
        exact .set (unseal_seal X correct sealed)
  | setIfAbsent key value ttl =>
    simp only [prepare] at ready
    split at ready
    · cases ready
    · split at ready
      · cases ready
      · rename_i written
        cases ready
        obtain ⟨rfl, rfl, sealed⟩ := prepareWrite_eq_ok X written
        exact .setIfAbsent (unseal_seal X correct sealed)
  | peek key =>
    cases ready
    exact .peek
  | take key =>
    cases ready
    exact .take
  | del key =>
    cases ready
    exact .del

theorem linear_failed (call : Call) (clock locked : Nat) (error : LithiumError)
    (earlier : List Section) : Section.Linear ⟨call, clock, locked, .failed error⟩ earlier := by
  cases call <;> trivial

theorem writes_failed (call : Call) (clock locked : Nat) (error : LithiumError) (index : Nat) :
    Section.writes ⟨call, clock, locked, .failed error⟩ index = none := by
  cases call <;> rfl

theorem removes_failed (call : Call) (clock locked : Nat) (error : LithiumError) :
    Section.removes ⟨call, clock, locked, .failed error⟩ = none := by
  cases call <;> rfl

/-- A lock section whose reply fits the current values before it, and which leaves a map
that mirrors those after it. -/
structure Ran (X : Suite) (used : Bytes → Prop) (storeKey : Key) (history : List Section)
    (now clock : Nat) (call : Call) (result : Reply × StoreInner) : Prop where
  linear : Section.Linear ⟨call, clock, now, result.1⟩ history
  mirrors : Mirrors X used storeKey (⟨call, clock, now, result.1⟩ :: history) now result.2.map

section
variable {history : List Section} {now clock : Nat} {inner : StoreInner}

theorem insertEntry_cases (hkey ciphertext : Bytes) (expiresAt : Nat) (success : Reply)
    (inner : StoreInner) :
    (∃ error, insertEntry hkey ciphertext expiresAt success inner = (.failed error, inner)) ∨
    ∃ version after, insertEntry hkey ciphertext expiresAt success inner = (success, after) ∧
      after.map = inner.map.insert hkey ⟨ciphertext, expiresAt, version⟩ := by
  rw [insertEntry, nextVersion]
  split
  · rename_i error failed
    split at failed
    · cases failed
    · exact .inl ⟨error, rfl⟩
  · rename_i version after numbered
    split at numbered
    · cases numbered
      exact .inr ⟨_, _, rfl, rfl⟩
    · cases numbered

theorem insertEntry_ran (apart : HashesApart X used)
    (mirrors : Mirrors X used storeKey history now inner.map) {call : Call} {success : Reply}
    {key value ciphertext : Bytes} {ttl : Nat} (known : used key)
    (opens : unsealValue X storeKey (hashSha256Hex X key) ciphertext = .ok value)
    (wrote : Section.writes ⟨call, clock, now, success⟩ history.length =
      some ⟨key, value, clock + ttl, history.length⟩)
    (linear : Section.Linear ⟨call, clock, now, success⟩ history) :
    Ran X used storeKey history now clock call
      (insertEntry (hashSha256Hex X key) ciphertext (clock + ttl) success inner) := by
  obtain ⟨error, failed⟩ | ⟨version, after, inserted, map⟩ :=
    insertEntry_cases (hashSha256Hex X key) ciphertext (clock + ttl) success inner
  · rw [failed]
    exact ⟨linear_failed _ _ _ _ _,
      mirrors.skip (writes_failed _ _ _ _ _) (removes_failed _ _ _ _)⟩
  · rw [inserted]
    refine ⟨linear, ?_⟩
    rw [map]
    exact mirrors.insert apart known wrote opens rfl

theorem setIfAbsent_ran (apart : HashesApart X used)
    (mirrors : Mirrors X used storeKey history now inner.map) {key value ciphertext : Bytes}
    {ttl : Nat} (known : used key) (past : clock ≤ now)
    (opens : unsealValue X storeKey (hashSha256Hex X key) ciphertext = .ok value) :
    Ran X used storeKey history now clock (.setIfAbsent key value ttl)
      ((Prepared.setIfAbsent clock (hashSha256Hex X key) ciphertext (clock + ttl)).section X storeKey
        inner) := by
  have swept := mirrors.shrunk (sweepExpired_shrunk clock inner) past
  rw [Prepared.section]
  cases found : (sweepExpired clock inner).map.lookup (hashSha256Hex X key) with
  | none =>
    exact insertEntry_ran apart swept known opens rfl fun written =>
      swept.gone key written known found
  | some entry =>
    obtain ⟨written, holds, -, expires⟩ := swept.held key entry known found
    dsimp only
    split
    · rename_i alive
      exact ⟨⟨written, holds, expires ▸ alive⟩, swept.skip rfl rfl⟩
    · rename_i expired
      exact insertEntry_ran apart swept known opens rfl (swept.expired known found (by omega))

theorem peek_ran (mirrors : Mirrors X used storeKey history now inner.map) {key : Bytes}
    (known : used key) (past : clock ≤ now) :
    Ran X used storeKey history now clock (.peek key)
      ((Prepared.peek clock (hashSha256Hex X key)).section X storeKey inner) := by
  rw [Prepared.section]
  cases found : inner.map.lookup (hashSha256Hex X key) with
  | none => exact ⟨fun written => mirrors.gone key written known found, mirrors.skip rfl rfl⟩
  | some entry =>
    obtain ⟨written, holds, opens, expires⟩ := mirrors.held key entry known found
    dsimp only
    split
    · rename_i alive
      rw [unsealed, opens]
      exact ⟨⟨written, holds, rfl, expires ▸ alive⟩, mirrors.skip rfl rfl⟩
    · rename_i expired
      have less : Shrunk clock inner.map (inner.map.erase (hashSha256Hex X key)) :=
        .erase found (Nat.le_of_not_lt expired) (.refl _ _)
      exact ⟨mirrors.expired known found (by omega), (mirrors.shrunk less past).skip rfl rfl⟩

theorem take_ran (apart : HashesApart X used)
    (mirrors : Mirrors X used storeKey history now inner.map) {key : Bytes} (known : used key)
    (past : clock ≤ now) :
    Ran X used storeKey history now clock (.take key)
      ((Prepared.take clock (hashSha256Hex X key)).section X storeKey inner) := by
  rw [Prepared.section]
  cases found : inner.map.lookup (hashSha256Hex X key) with
  | none =>
    have same : inner.map.erase (hashSha256Hex X key) = inner.map :=
      AList.ext (List.kerase_of_notMem_keys (AList.lookup_eq_none.mp found))
    have removes : Section.removes ⟨.take key, clock, now, .value none⟩ = some key := rfl
    have erased : Mirrors X used storeKey (_ :: history) now
        (inner.map.erase (hashSha256Hex X key)) := mirrors.erase apart known rfl removes
    rw [same] at erased
    exact ⟨fun written => mirrors.gone key written known found, erased⟩
  | some entry =>
    obtain ⟨written, holds, opens, expires⟩ := mirrors.held key entry known found
    dsimp only
    split
    · rename_i expired
      exact ⟨mirrors.expired known found (by omega), mirrors.erase apart known rfl rfl⟩
    · rename_i alive
      rw [unsealed, opens]
      refine ⟨⟨written, holds, rfl, ?_⟩, mirrors.erase apart known rfl rfl⟩
      exact expires ▸ Nat.lt_of_not_le alive

/-- Every lock section fits the current values, although its clock reading is old. -/
theorem section_ran (apart : HashesApart X used)
    (mirrors : Mirrors X used storeKey history now inner.map) {call : Call} {prepared : Prepared}
    (begun : Begun X storeKey clock call prepared) (past : clock ≤ now) (known : used call.key) :
    Ran X used storeKey history now clock call (prepared.section X storeKey inner) := by
  cases begun with
  | set opens =>
    have swept := mirrors.shrunk (sweepExpired_shrunk clock inner) past
    exact insertEntry_ran apart swept known opens rfl trivial
  | setIfAbsent opens => exact setIfAbsent_ran apart mirrors known past opens
  | peek => exact peek_ran mirrors known past
  | take => exact take_ran apart mirrors known past
  | del => exact ⟨trivial, mirrors.erase apart known rfl rfl⟩

end

variable {Tid : Type}

/-- What every run keeps: calls under way read the clock in the past, the map mirrors the
current values, and every reply so far fitted the current values before it. -/
structure Sound (X : Suite) (used : Bytes → Prop) (config : Config Tid) : Prop where
  begun : ∀ tid waiting, config.waiting tid = some waiting →
    Begun X config.shared.key waiting.clock waiting.call waiting.prepared ∧
      waiting.clock ≤ config.now ∧ used waiting.call.key
  mirrors : Mirrors X used config.shared.key config.history config.now config.shared.inner.map
  replies : ∀ later ran earlier, config.history = later ++ ran :: earlier →
    ran.clock ≤ ran.locked ∧ ran.Linear earlier

theorem Sound.start (storeKey : Key) (time : Nat) :
    Sound X used (⟨time, .new storeKey, fun _ => none, []⟩ : Config Tid) where
  begun tid waiting next := by cases next
  mirrors := {
    held := fun key entry _ found => by simp [Shared.new] at found
    gone := fun key written _ _ holds => by simp [current] at holds }
  replies later ran earlier split := by simp at split

variable [DecidableEq Tid]

theorem replies_cons {history : List Section} {latest : Section}
    (replies : ∀ later ran earlier, history = later ++ ran :: earlier →
      ran.clock ≤ ran.locked ∧ ran.Linear earlier)
    (newest : latest.clock ≤ latest.locked ∧ latest.Linear history) :
    ∀ later ran earlier, latest :: history = later ++ ran :: earlier →
      ran.clock ≤ ran.locked ∧ ran.Linear earlier := by
  intro later ran earlier split
  cases later with
  | nil =>
    cases split
    exact newest
  | cons first later =>
    cases split
    exact replies later ran earlier rfl

theorem Sound.step (correct : X.AeadCorrect) (apart : HashesApart X used) {latest : Nat}
    {config config' : Config Tid} (sound : Sound X used config)
    (step : Step X latest used config config') : Sound X used config' := by
  cases step with
  | tick later forward =>
    refine ⟨fun tid waiting next => ?_, sound.mirrors.later forward, sound.replies⟩
    obtain ⟨begun, past, known⟩ := sound.begun tid waiting next
    exact ⟨begun, Nat.le_trans past forward, known⟩
  | begin tid call nonce idle known ready =>
    refine ⟨fun tid' waiting next => ?_, sound.mirrors, sound.replies⟩
    dsimp only at next
    by_cases same : tid' = tid
    · subst same
      rw [Function.update_self] at next
      cases next
      exact ⟨prepare_begun correct ready, Nat.le_refl _, known⟩
    · rw [Function.update_of_ne same] at next
      exact sound.begun tid' waiting next
  | @lock tid waiting next =>
    obtain ⟨begun, past, known⟩ := sound.begun tid waiting next
    have others : ∀ tid' other, Function.update config.waiting tid none tid' = some other →
        config.waiting tid' = some other := by
      intro tid' other held
      by_cases same : tid' = tid
      · subst same
        rw [Function.update_self] at held
        cases held
      · rwa [Function.update_of_ne same] at held
    by_cases poisoned : config.shared.poisoned = true
    · rw [Prepared.run, if_pos poisoned]
      refine ⟨fun tid' other held => sound.begun tid' other (others tid' other held), ?_, ?_⟩
      · exact sound.mirrors.skip (writes_failed _ _ _ _ _) (removes_failed _ _ _ _)
      · exact replies_cons sound.replies ⟨past, linear_failed _ _ _ _ _⟩
    · rw [Prepared.run, if_neg poisoned]
      have ran := section_ran apart sound.mirrors begun past known
      refine ⟨fun tid' other held => sound.begun tid' other (others tid' other held), ?_, ?_⟩
      · exact ran.mirrors
      · exact replies_cons sound.replies ⟨past, ran.linear⟩
  | sweep =>
    refine ⟨sound.begun, ?_, sound.replies⟩
    show Mirrors X used _ _ _ (cleanupPass config.now config.shared.inner).map
    rw [cleanupPass]
    split
    · exact sound.mirrors
    · exact sound.mirrors.shrunk (sweepExpired_shrunk _ _) (Nat.le_refl _)
  | stop => exact ⟨sound.begun, sound.mirrors, sound.replies⟩

theorem Reached.sound (correct : X.AeadCorrect) (apart : HashesApart X used) {latest time : Nat}
    {config : Config Tid} (reached : Reached X latest used storeKey time config) :
    Sound X used config := by
  induction reached with
  | start => exact .start storeKey time
  | next _ step ih => exact ih.step correct apart step

/-- A later take gives a value that was written by another section. -/
theorem take_once {between earlier : List Section} {first : Section} {key key' : Bytes}
    {found : Option Bytes} {one other : Written} (call : first.call = .take key)
    (reply : first.reply = .value found) (holds : current earlier key = some one)
    (holds' : current (between ++ first :: earlier) key' = some other) : one.index ≠ other.index := by
  intro same
  have suffix : earlier <:+ between ++ first :: earlier :=
    (List.suffix_cons first earlier).trans (List.suffix_append between _)
  obtain rfl := current_unique holds holds' suffix same
  -- the same value, so the same key: but that key was removed in between
  obtain ⟨rfl, ran, position, -⟩ := current_written holds
  obtain ⟨rfl, -⟩ := current_written holds'
  have removed : first.removes = some one.key := by rw [Section.removes, call, reply]
  have silent : first.writes earlier.length = none := by rw [Section.writes, call]
  have after := current_after_removal removed silent holds'
  have before := (List.getElem?_eq_some_iff.mp position).1
  rw [List.length_reverse] at before
  omega

/-- In every run every reply fits the current value of its key in lock order, with the
expiry compared to the clock reading of the call or to the time of its lock section, and
no two takes give a value of the same write. -/
theorem store_linearizable (correct : X.AeadCorrect) (apart : HashesApart X used)
    {latest time : Nat} {config : Config Tid}
    (reached : Reached X latest used storeKey time config) :
    (∀ later ran earlier, config.history = later ++ ran :: earlier →
      ran.clock ≤ ran.locked ∧ ran.Linear earlier) ∧
    ∀ later second between first earlier key key' value value',
      config.history = later ++ second :: (between ++ first :: earlier) →
      first.call = .take key → first.reply = .value (some value) →
      second.call = .take key' → second.reply = .value (some value') →
      ∃ one other, current earlier key = some one ∧
        current (between ++ first :: earlier) key' = some other ∧ one.index ≠ other.index := by
  have replies := (reached.sound correct apart).replies
  refine ⟨replies, ?_⟩
  intro later second between first earlier key key' value value' split take reply take' reply'
  have split' : config.history = (later ++ second :: between) ++ first :: earlier := by
    rw [split, List.append_assoc, List.cons_append]
  have linear := (replies _ first earlier split').2
  have linear' := (replies later second _ split).2
  simp only [Section.Linear, take, reply] at linear
  simp only [Section.Linear, take', reply'] at linear'
  obtain ⟨one, holds, -⟩ := linear
  obtain ⟨other, holds', -⟩ := linear'
  exact ⟨one, other, holds, holds', take_once take reply holds holds'⟩

end

def sampleStoreKey : Key := fit 32 []

/-- The run of a thread that stores a secret and one that takes it, which read the clock
at time 0 and get the lock at times 0 and 3. -/
theorem store_linearizable_sample : ∃ config : Config Nat,
    config.history.map (·.locked) = [3, 0] ∧
    config.history.map (·.reply) = [.value (some [7]), .done] ∧
    ∀ later ran earlier, config.history = later ++ ran :: earlier →
      ran.clock ≤ ran.locked ∧ ran.Linear earlier := by
  have fresh : Reached sampleSuite 100 (· = [1]) sampleStoreKey 0
      (⟨0, .new sampleStoreKey, fun _ => none, []⟩ : Config Nat) := .start
  have setting := fresh.next (.begin 0 (.set [1] [7] 10) (.ok (fit 12 [])) rfl rfl rfl)
  have taking := setting.next (.begin 1 (.take [1]) (.ok (fit 12 [])) rfl rfl rfl)
  have stored := taking.next (.lock 0 rfl)
  have taken := (stored.next (.tick 3 (by decide))).next (.lock 1 rfl)
  have apart : HashesApart sampleSuite (· = [1]) := by
    rintro key key' rfl rfl _
    rfl
  exact ⟨_, by decide +kernel, by decide +kernel, (store_linearizable sampleSuite_aead apart taken).1⟩

end Lithium.Utils
