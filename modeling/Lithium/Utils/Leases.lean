import Lithium.Utils.Linearization

/-! `set_if_absent` as a lock with a lifetime. A call that stored its value holds the key until
the lifetime is over, counted from its clock reading, or until the key is removed or set by
someone else. Of two calls that both stored, the second has run its lock section after the
first one's hold was over, whatever clock readings the calls in between had. -/
namespace Lithium.Utils
open Keys (Bytes Key)
open Crypto

/-- The section stored its value under the key because nothing was there. -/
def Section.Granted (ran : Section) (key : Bytes) : Prop :=
  ∃ value ttl, ran.call = .setIfAbsent key value ttl ∧ ran.reply = .stored true

def Section.lapses (ran : Section) : Nat :=
  match ran.call with
  | .set _ _ ttl | .setIfAbsent _ _ ttl => ran.clock + ttl
  | _ => ran.clock

/-- The section took the key away from whoever held it: it was removed, or set. -/
def Section.Revokes (ran : Section) (key : Bytes) : Prop :=
  ran.removes = some key ∨ ∃ value ttl, ran.call = .set key value ttl ∧ ran.reply = .done

section
variable {key : Bytes} {ran first second : Section} {between earlier : List Section}

theorem Section.Granted.writes (granted : ran.Granted key) (index : Nat) :
    ∃ written, ran.writes index = some written ∧ written.key = key ∧ written.expires = ran.lapses := by
  obtain ⟨value, ttl, call, reply⟩ := granted
  refine ⟨⟨key, value, ran.clock + ttl, index⟩, ?_, rfl, ?_⟩
  · rw [Section.writes, call, reply]
  · rw [Section.lapses, call]

theorem current_untouched (kept : ¬ ran.Revokes key) (refused : ¬ ran.Granted key)
    (earlier : List Section) : current (ran :: earlier) key = current earlier key := by
  rw [current]
  cases wrote : ran.writes earlier.length with
  | none =>
    simp only
    exact if_neg fun removed => kept (.inl removed)
  | some written =>
    simp only
    refine if_neg fun same => ?_
    subst same
    rw [Section.writes] at wrote
    split at wrote
    · next value ttl call reply =>
      cases wrote
      exact kept (.inr ⟨value, ttl, call, reply⟩)
    · next value ttl call reply =>
      cases wrote
      exact refused ⟨value, ttl, call, reply⟩
    · cases wrote

theorem Section.Granted.lapsed (granted : ran.Granted key) (linear : ran.Linear earlier) {written : Written}
    (holds : current earlier key = some written) : written.expires ≤ ran.locked := by
  obtain ⟨value, ttl, call, reply⟩ := granted
  simp only [Section.Linear, call, reply] at linear
  exact linear written holds

/-- Behind a granted section: the key was revoked, another section was granted after the hold
was over, or the holder's value is current. -/
theorem held_or_over (granted : first.Granted key)
    (linear : ∀ later ran rest, between = later ++ ran :: rest → ran.Linear (rest ++ first :: earlier)) :
    (∃ ran ∈ between, ran.Revokes key) ∨ (∃ ran ∈ between, first.lapses ≤ ran.locked) ∨
      ∃ written, current (between ++ first :: earlier) key = some written ∧
        written.expires = first.lapses := by
  induction between with
  | nil =>
    obtain ⟨written, wrote, same, expires⟩ := granted.writes earlier.length
    refine .inr (.inr ⟨written, ?_, expires⟩)
    rw [List.nil_append, current, wrote]
    exact if_pos same
  | cons ran rest ih =>
    have before : ∀ later other rest', rest = later ++ other :: rest' →
        other.Linear (rest' ++ first :: earlier) :=
      fun later other rest' split => linear (ran :: later) other rest' (congrArg _ split)
    obtain ⟨other, member, revokes⟩ | ⟨other, member, lapsed⟩ | ⟨written, holds, expires⟩ := ih before
    · exact .inl ⟨other, List.mem_cons_of_mem _ member, revokes⟩
    · exact .inr (.inl ⟨other, List.mem_cons_of_mem _ member, lapsed⟩)
    · by_cases revokes : ran.Revokes key
      · exact .inl ⟨ran, List.mem_cons_self, revokes⟩
      · by_cases again : ran.Granted key
        · have lapsed := again.lapsed (linear [] ran rest rfl) holds
          exact .inr (.inl ⟨ran, List.mem_cons_self, expires ▸ lapsed⟩)
        · refine .inr (.inr ⟨written, ?_, expires⟩)
          rw [List.cons_append, current_untouched revokes again]
          exact holds

end

section
variable {X : Suite} {used : Bytes → Prop} {storeKey : Key} {Tid : Type} [DecidableEq Tid] {latest time : Nat}
  {config : Config Tid}

theorem Reached.ordered (reached : Reached X latest used storeKey time config) :
    (∀ ran ∈ config.history, ran.locked ≤ config.now) ∧
      config.history.Pairwise fun later before => before.locked ≤ later.locked := by
  induction reached with
  | start => exact ⟨fun _ none => (by cases none), List.Pairwise.nil⟩
  | next _ step ih =>
    obtain ⟨past, ordered⟩ := ih
    cases step with
    | tick later forward => exact ⟨fun ran member => (past ran member).trans forward, ordered⟩
    | begin => exact ⟨past, ordered⟩
    | lock =>
      refine ⟨fun ran member => ?_, List.pairwise_cons.mpr ⟨past, ordered⟩⟩
      obtain rfl | member := List.mem_cons.mp member
      · exact le_rfl
      · exact past ran member
    | sweep => exact ⟨past, ordered⟩
    | stop => exact ⟨past, ordered⟩

/-- Holds of a key never overlap: where two calls of `set_if_absent` stored under one key, the
key was removed or set in between, or the lifetime of the first was over when the lock section
of the second ran. -/
theorem leases_disjoint (correct : X.AeadCorrect) (apart : HashesApart X used)
    (reached : Reached X latest used storeKey time config) {key : Bytes} {later between earlier : List Section}
    {second first : Section} (split : config.history = later ++ second :: (between ++ first :: earlier))
    (granted : first.Granted key) (again : second.Granted key) :
    (∃ ran ∈ between, ran.Revokes key) ∨ first.lapses ≤ second.locked := by
  have replies := (reached.sound correct apart).replies
  have linear : ∀ newer ran rest, between = newer ++ ran :: rest → ran.Linear (rest ++ first :: earlier) := by
    rintro newer ran rest rfl
    refine (replies (later ++ second :: newer) ran (rest ++ first :: earlier) ?_).2
    rw [split]
    simp
  obtain revoked | ⟨ran, member, lapsed⟩ | ⟨written, holds, expires⟩ := held_or_over granted linear
  · exact .inl revoked
  · have ordered := (reached.ordered).2
    rw [split, List.pairwise_append, List.pairwise_cons] at ordered
    have later := ordered.2.1.1 ran (List.mem_append_left _ member)
    exact .inr (lapsed.trans later)
  · have lapsed := again.lapsed (replies later second _ split).2 holds
    exact .inr (expires ▸ lapsed)

end

/-- Three threads ask for one key one after the other. The second is refused, the third runs its
lock section when the lifetime of the first is over. -/
theorem threeAsk : ∃ config : Config Nat, Reached sampleSuite 100 (· = [1]) sampleStoreKey 0 config ∧
    config.history.map (·.call) =
      [.setIfAbsent [1] [9] 10, .setIfAbsent [1] [8] 10, .setIfAbsent [1] [7] 10] ∧
    config.history.map (·.reply) = [.stored true, .stored false, .stored true] ∧
    config.history.map (·.locked) = [12, 4, 1] := by
  have fresh : Reached sampleSuite 100 (· = [1]) sampleStoreKey 0
      (⟨0, .new sampleStoreKey, fun _ => none, []⟩ : Config Nat) := .start
  have asked := fresh.next (.begin 0 (.setIfAbsent [1] [7] 10) (.ok (fit 12 [])) rfl rfl rfl)
  have held := (asked.next (.tick 1 (by decide))).next (.lock 0 rfl)
  have asked' := held.next (.begin 1 (.setIfAbsent [1] [8] 10) (.ok (fit 12 [])) rfl rfl rfl)
  have refused := (asked'.next (.tick 4 (by decide))).next (.lock 1 rfl)
  have lapsed := refused.next (.tick 11 (by decide))
  have asked'' := lapsed.next (.begin 2 (.setIfAbsent [1] [9] 10) (.ok (fit 12 [])) rfl rfl rfl)
  exact ⟨_, (asked''.next (.tick 12 (by decide))).next (.lock 2 rfl), rfl, by decide +kernel, by decide +kernel⟩

theorem leases_disjoint_sample : ∃ (config : Config Nat) (second refused first : Section),
    config.history = [second, refused, first] ∧ second.locked = 12 ∧
    ((∃ ran ∈ [refused], ran.Revokes [1]) ∨ first.lapses ≤ second.locked) := by
  obtain ⟨config, reached, calls, replies, times⟩ := threeAsk
  obtain ⟨second, refused, first, split⟩ := List.length_eq_three.mp
    ((List.length_map _).symm.trans (congrArg List.length times))
  rw [split] at calls replies times
  simp only [List.map_cons, List.map_nil, List.cons.injEq, and_true] at calls replies times
  have apart : HashesApart sampleSuite (· = [1]) := by
    rintro key key' rfl rfl _
    rfl
  exact ⟨config, second, refused, first, split, times.1, leases_disjoint sampleSuite_aead apart reached
    (show _ = [] ++ second :: ([refused] ++ first :: []) from split) ⟨[7], 10, calls.2.2, replies.2.2⟩
    ⟨[9], 10, calls.1, replies.1⟩⟩

end Lithium.Utils
