import Lithium.Keys.Availability
import Lithium.Secrets.Capacity
import Lithium.Secrets.Wiping

/-! The arena a manager shares among its callers. It is small, and a claim that finds it full is
refused though no system call failed: `sign_double` then fails, and in the `cached-mk` build a
rotation poisons the manager. All claims of the manager ask for 32 bytes, so a bound on the callers
that hold regions at once is all it takes for none to be refused. -/
namespace Lithium.Keys
open Effects Storage
open Lithium.Crypto (Suite SignatureSuite)

/-- The arena, the region of the manager's own copy of the master key and the regions lent to
callers. -/
structure ArenaUse where
  arena : Secrets.Arena
  kept : Option Secrets.Region
  lent : List (Tid × Secrets.Region)

namespace ArenaUse

def regions (use : ArenaUse) : List Secrets.Region := use.kept.toList ++ use.lent.map Prod.snd

/-- Who holds them, once for each region. -/
def holders (use : ArenaUse) : List Tid := use.lent.map Prod.fst

end ArenaUse

section
variable (bits : Nat)

def dropRegion (region : Secrets.Region) (arena : Secrets.Arena) : Secrets.Arena :=
  match region.drop bits arena with
  | .ok _ after | .error _ after => after

/-- A seed is claimed and dropped, as `ensure_seed_keypair` does. -/
def passingSeed (arena : Secrets.Arena) : Secrets.Arena :=
  match Secrets.claim bits 32 arena with
  | .ok region after => dropRegion bits region after
  | .error _ after => after

namespace ArenaUse

/-- The arena after a start: the seeds of both key pairs have been through it, and the `cached-mk`
build keeps its copy of the master key there. -/
def opening (cached : Bool) (arena : Secrets.Arena) : ArenaUse :=
  let arena := passingSeed bits (passingSeed bits arena)
  if cached then
    match Secrets.claim bits 32 arena with
    | .ok region after => ⟨after, some region, []⟩
    | .error _ after => ⟨after, none, []⟩
  else ⟨arena, none, []⟩

/-- `*guard = cached` in `refresh_current_mk`: the region just claimed becomes the manager's, and
the one it had is dropped. -/
def keep (tid : Tid) (use : ArenaUse) : ArenaUse :=
  match use.lent.find? (·.1 = tid) with
  | none => use
  | some loan =>
    { arena := use.kept.elim use.arena (dropRegion bits · use.arena), kept := some loan.2,
      lent := use.lent.erase loan }

def giveBack (tid : Tid) (region : Secrets.Region) (use : ArenaUse) : ArenaUse :=
  { use with arena := dropRegion bits region use.arena, lent := use.lent.erase (tid, region) }

/-- What a call does to the arena, once the rest of the world has replied. -/
def serve (tid : Tid) : (op : Op) → Reply op → ArenaUse → Option (Reply op × ArenaUse)
  | .arenaClaim len, .ok _, use =>
    match Secrets.claim bits len use.arena with
    | .ok region after => some (.ok (), { use with arena := after, lent := (tid, region) :: use.lent })
    | .error (.failed e) after => some (.error e, { use with arena := after })
    | .error .overflow _ => none
  | .setCachedMk _, reply, use => some (reply, use.keep bits tid)
  | _, reply, use => some (reply, use)

end ArenaUse

/-- The calls of a thread, with the arena as it is. -/
def sharing (env : Env) (tid : Tid) : Executor Calls (World × ArenaUse) Choice :=
  fun choice op state => do
    let (reply, w) ← exec env tid choice op state.1
    let (reply, use) ← state.2.serve bits tid op reply
    return (reply, w, use)

abbrev Sharing := System Calls (World × ArenaUse) LithiumError Bytes Tid

/-- A thread makes a call, or a region is given back. When that happens is left to its holder:
`sign_double` keeps its seeds until it has signed, long after it has left the gate. -/
inductive Shares (env : Tid → Env) : Sharing → Sharing → Prop
  | moves {s s' : Sharing} {i : Tid} (moved : Moves (fun i => (sharing bits (env i) i).sem) i s s') :
    Shares env s s'
  | givesBack {threads : Tid → Prog Bytes} {w : World} {use : ArenaUse} {i : Tid}
      {region : Secrets.Region} (lent : (i, region) ∈ use.lent) :
    Shares env ⟨threads, w, use⟩ ⟨threads, w, use.giveBack bits i region⟩

end

/-- Who holds a region or is about to claim one is among the busy callers. -/
def Among (busy : Finset Tid) (s : Sharing) : Prop :=
  ∀ i, (i ∈ s.world.2.holders ∨ ∃ len, (s.threads i).nextCall = some (.arenaClaim len)) → i ∈ busy

/-- They are at most `n`. -/
def Uncrowded (n : Nat) (s : Sharing) : Prop := ∃ busy : Finset Tid, busy.card ≤ n ∧ Among busy s

def withoutArena (s : Sharing) : System Calls World LithiumError Bytes Tid := ⟨s.threads, s.world.1⟩

def claims : Op → Bool
  | .arenaClaim _ => true
  | _ => false

def ClaimsKey (op : Op) : Prop := ∀ len, op = .arenaClaim len → len = 32

theorem not_claims_of_special (op : Op) (free : special op = false) : claims op = false := by
  cases op <;> first | rfl | cases free

theorem claimsKey_of_special (op : Op) (free : special op = false) : ClaimsKey op := by
  rintro len rfl
  cases free

section
variable {A : Suite} {S : SignatureSuite} {cached : Bool} {mode : CreateNewMode}

theorem refreshCurrentMk_claims : refreshCurrentMk.AtMost claims 1 := by
  refine (loadMk_calls not_claims_of_special).bind_atMost fun _ => .perform_bind fun _ => Program.Calls.atMost ?_
  exact .bind (.done _) fun _ => .bind (.perform rfl) fun _ => trivial

theorem rotateNow_claims (X : Crypto) : (rotateNow X cached).AtMost claims 1 := by
  have locked : (rotateLocked X cached).AtMost claims 1 := by
    refine Program.Calls.bind_atMost (recoverPendingRotationIfAny_calls not_claims_of_special
      (fun _ => rfl) (fun _ => rfl) X) fun _ => ?_
    refine Program.Calls.bind_atMost (prepareRotation_calls not_claims_of_special (fun _ => rfl)
      (fun _ => rfl) X rfl) fun prepared => ?_
    refine Program.Calls.bind_atMost (commitRotation_calls not_claims_of_special (fun _ => rfl)
      (fun _ => rfl) X _ _) fun _ => ?_
    cases cached with
    | false => trivial
    | true =>
      refine Program.AtMost.bind (m := 0) refreshCurrentMk_claims.attempt fun result => ?_
      split
      · trivial
      · refine Program.Calls.atMost ?_
        exact .bind (setPoisoned_calls not_claims_of_special) fun _ => trivial
  refine Program.Calls.bind_atMost (.perform rfl) fun _ => locked.attempt.bind (m := 0) fun _ => Program.Calls.atMost ?_
  exact .bind (.bind (.perform rfl) fun _ => trivial) fun _ => trivial

theorem signingSeeds_claims (X : Crypto) : (signingSeeds X cached).AtMost claims 2 := by
  have body : ∀ mk, (do
      let edSeed ← loadSecret32Decrypted X edPriv mk ktEdSeed
      let diliSeed ← loadBytesDecrypted X diliPriv mk ktDiliSeed
      Program.done (← call (.arenaClaim 32))
      let diliSeed ← Program.done (Fixed.fromSlice 32 diliSeed)
      Program.done (← call (.arenaClaim 32))
      return (edSeed, diliSeed) : Prog (Fixed 32 × Fixed 32)).AtMost claims 2 := by
    intro mk
    refine (loadSecret32Decrypted_calls not_claims_of_special X _ _ _).bind_atMost fun edSeed => ?_
    refine (loadBytesDecrypted_calls not_claims_of_special X _ _ _).bind_atMost fun diliSeed => ?_
    refine .perform_bind fun _ => (Program.Calls.done _).bind_atMost fun _ => ?_
    refine (Program.Calls.done _).bind_atMost fun diliSeed => ?_
    refine .perform_bind fun _ => Program.Calls.atMost ?_
    exact .bind (.done _) fun _ => trivial
  refine (checkLive_calls not_claims_of_special).bind_atMost fun _ =>
    Program.Calls.bind_atMost (.perform rfl) fun _ => ?_
  refine Program.AtMost.bind (m := 0) (.attempt ?_) fun _ => Program.Calls.atMost ?_
  · exact (currentMk_calls not_claims_of_special cached).bind_atMost body
  · exact .bind (.bind (.perform rfl) fun _ => trivial) fun _ => trivial

theorem Task.claims_atMost (task : Task) : (task.program A S cached mode).AtMost claims 2 := by
  cases task with
  | sign message ctx =>
    refine Program.AtMost.bind (m := 0) ?_ fun sig => trivial
    exact Program.AtMost.bind (m := 0) (signingSeeds_claims _) fun seeds => Program.Calls.atMost (.done _)
  | rotate =>
    refine Program.AtMost.mono (n := 1) ?_ (by decide)
    exact Program.AtMost.bind (m := 0) (rotateNow_claims _) fun _ => trivial
  | _ =>
    refine Program.Calls.atMost (Task.client_calls not_claims_of_special rfl rfl (fun _ => rfl) (by rintro ⟨⟩) ?_ mode)
    rintro ⟨_, _, ⟨⟩⟩

theorem Task.claimsKey (task : Task) : (task.program A S cached mode).Calls ClaimsKey := by
  have key : ClaimsKey (.arenaClaim 32) := by
    rintro _ ⟨⟩
    rfl
  by_cases rotation : task = .rotate
  · subst rotation
    refine .bind ?_ fun _ => trivial
    exact rotateNow_calls claimsKey_of_special (fun _ => nofun) (fun _ => nofun) _ nofun key nofun nofun
      cached
  · exact Task.client_calls claimsKey_of_special nofun nofun (fun _ => nofun) rotation (fun _ => key) mode

end

section
variable {bits : Nat} {mapping : Secrets.Mapping bits} {use : ArenaUse}

/-- The arena has slots for one key each, and what is in use is known. -/
def ArenaUse.Even (mapping : Secrets.Mapping bits) (use : ArenaUse) : Prop :=
  Secrets.Even mapping 32 use.arena use.regions

theorem dropRegion_even {region : Secrets.Region} {arena : Secrets.Arena}
    {regions : List Secrets.Region} (even : Secrets.Even mapping 32 arena (region :: regions)) :
    Secrets.Even mapping 32 (dropRegion bits region arena) regions := by
  obtain ⟨after, dropped, even⟩ := even.drop
  rw [dropRegion, dropped]
  exact even

theorem claim_even {arena : Secrets.Arena} {regions : List Secrets.Region}
    (even : Secrets.Even mapping 32 arena regions) (room : 32 * (regions.length + 1) ≤ mapping.size) :
    ∃ region after, Secrets.claim bits 32 arena = .ok region after ∧
      Secrets.Even mapping 32 after (region :: regions) := by
  have fits := mapping.fits
  have even : Secrets.Even mapping (Secrets.sizeClass 32) arena regions := even
  exact even.claim (by omega) room

theorem passingSeed_even {arena : Secrets.Arena} (even : Secrets.Even mapping 32 arena [])
    (room : 32 ≤ mapping.size) : Secrets.Even mapping 32 (passingSeed bits arena) [] := by
  obtain ⟨region, after, claimed, even⟩ := claim_even even room
  rw [passingSeed, claimed]
  exact dropRegion_even even

theorem opening_even (cached : Bool) (room : 32 ≤ mapping.size) :
    (ArenaUse.opening bits cached mapping.arena).Even mapping ∧
      (ArenaUse.opening bits cached mapping.arena).lent = [] := by
  have passed := passingSeed_even (passingSeed_even (.fresh mapping 32) room) room
  cases cached with
  | false => exact ⟨passed, rfl⟩
  | true =>
    obtain ⟨region, after, claimed, even⟩ := claim_even passed room
    have opened : ArenaUse.opening bits true mapping.arena = ⟨after, some region, []⟩ := by
      simp only [ArenaUse.opening, claimed, if_true]
    rw [opened]
    exact ⟨even, rfl⟩

theorem ArenaUse.keep_holders (tid : Tid) : (use.keep bits tid).holders.Sublist use.holders := by
  rw [ArenaUse.keep]
  split
  · exact .refl _
  · exact List.erase_sublist.map Prod.fst

theorem ArenaUse.Even.giveBack {tid : Tid} {region : Secrets.Region} (even : use.Even mapping)
    (lent : (tid, region) ∈ use.lent) : (use.giveBack bits tid region).Even mapping := by
  refine dropRegion_even (Secrets.Even.perm even ?_)
  refine (((List.perm_cons_erase lent).map Prod.snd).append_left _).trans ?_
  exact List.perm_middle

theorem ArenaUse.Even.keep {tid : Tid} (even : use.Even mapping) : (use.keep bits tid).Even mapping := by
  rw [ArenaUse.keep]
  cases found : use.lent.find? (·.1 = tid) with
  | none => exact even
  | some loan =>
    have split := (List.perm_cons_erase (List.mem_of_find?_eq_some found)).map Prod.snd
    obtain ⟨arena, kept, lent⟩ := use
    cases kept with
    | none => exact Secrets.Even.perm even split
    | some old => exact (dropRegion_even even).perm split

/-- A call made while there is room for one more region: the arena does not change the reply, and
only a claim adds to what its caller holds. -/
theorem serve_spec {tid : Tid} {op : Op} {reply answer : Reply op} {after : ArenaUse}
    (even : use.Even mapping) (key : ClaimsKey op)
    (room : claims op = true → 32 * (use.regions.length + 1) ≤ mapping.size)
    (served : use.serve bits tid op reply = some (answer, after)) :
    answer = reply ∧ after.Even mapping ∧
      ∀ i, after.holders.count i ≤ use.holders.count i + if i = tid then (claims op).toNat else 0 := by
  cases op with
  | arenaClaim len =>
    obtain rfl := key len rfl
    cases reply with
    | error e =>
      cases served
      exact ⟨rfl, even, fun i => Nat.le_add_right _ _⟩
    | ok value =>
      obtain ⟨region, arena, claimed, even⟩ := claim_even even (room rfl)
      rw [ArenaUse.serve, claimed] at served
      cases served
      refine ⟨rfl, Secrets.Even.perm even List.perm_middle.symm, fun i => ?_⟩
      rw [ArenaUse.holders, List.map_cons, List.count_cons]
      by_cases same : i = tid
      · simp [same, claims, ArenaUse.holders]
      · simp [same, Ne.symm same, ArenaUse.holders]
  | setCachedMk mk =>
    cases served
    exact ⟨rfl, even.keep, fun i => ((ArenaUse.keep_holders tid).count_le i).trans (Nat.le_add_right _ _)⟩
  | _ =>
    cases served
    exact ⟨rfl, even, fun i => Nat.le_add_right _ _⟩

theorem sharing_sem {env : Env} {tid : Tid} {op : Op} {reply : Reply op} {state state' : World × ArenaUse}
    (called : (sharing bits env tid).sem op state reply state') : ∃ first,
    sem env tid op state.1 first state'.1 ∧ state.2.serve bits tid op first = some (reply, state'.2) := by
  obtain ⟨choice, performed⟩ := called
  simp only [sharing, Option.bind_eq_bind, Option.bind_eq_some_iff, Prod.exists, pure,
    Option.some.injEq, Prod.mk.injEq] at performed
  obtain ⟨first, w, stepped, answer, use, served, rfl, rfl, rfl⟩ := performed
  exact ⟨first, ⟨choice, stepped⟩, served⟩

end

structure Provided {bits : Nat} (mapping : Secrets.Mapping bits) (s : Sharing) : Prop where
  even : s.world.2.Even mapping
  few : ∀ i, ∃ n, (s.threads i).AtMost claims n ∧ s.world.2.holders.count i + n ≤ 2
  keys : ∀ i, (s.threads i).Calls ClaimsKey

theorem pos_of_claim {thread : Prog Bytes} {n len : Nat} (few : thread.AtMost claims n)
    (pending : thread.nextCall = some (.arenaClaim len)) : 0 < n := by
  cases thread with
  | done result => cases pending
  | call op next =>
    cases pending
    exact few.1 rfl

theorem length_le_of_count_le {α : Type} [DecidableEq α] {l : List α} {members : Finset α} {k : Nat}
    (inside : ∀ a ∈ l, a ∈ members) (few : ∀ a, l.count a ≤ k) : l.length ≤ members.card * k := by
  calc l.length = ∑ a ∈ members, l.count a := by
        simpa using (Multiset.sum_count_eq_card (s := members) (m := l) inside).symm
    _ ≤ members.card * k := Finset.sum_le_card_nsmul _ _ _ fun a _ => few a

section
variable {bits n : Nat} {mapping : Secrets.Mapping bits} {env : Tid → Env} {s s' : Sharing}

/-- A caller about to claim a region finds room for it. -/
theorem Provided.room (provided : Provided mapping s) (uncrowded : Uncrowded n s)
    (large : 32 * (2 * n + 1) ≤ mapping.size) {i : Tid} {len : Nat}
    (pending : (s.threads i).nextCall = some (.arenaClaim len)) :
    32 * (s.world.2.regions.length + 1) ≤ mapping.size := by
  obtain ⟨busy, bound, inside⟩ := uncrowded
  obtain ⟨left, few, within⟩ := provided.few i
  have more := pos_of_claim few pending
  have held : (i :: s.world.2.holders).length ≤ busy.card * 2 := by
    refine length_le_of_count_le ?_ fun j => ?_
    · rintro j (_ | ⟨_, member⟩)
      · exact inside i (.inr ⟨len, pending⟩)
      · exact inside j (.inl member)
    · obtain ⟨_, -, fits⟩ := provided.few j
      rw [List.count_cons]
      split
      · next same =>
        cases eq_of_beq same
        omega
      · omega
  have kept : s.world.2.kept.toList.length ≤ 1 := by cases s.world.2.kept <;> simp
  have total : s.world.2.regions.length = s.world.2.kept.toList.length + s.world.2.holders.length := by
    simp [ArenaUse.regions, ArenaUse.holders]
  rw [List.length_cons] at held
  omega

/-- A call: the world does what it would without the arena. -/
theorem Provided.moves (provided : Provided mapping s) (uncrowded : Uncrowded n s)
    (large : 32 * (2 * n + 1) ≤ mapping.size) {i : Tid}
    (moved : Moves (fun i => (sharing bits (env i) i).sem) i s s') :
    Provided mapping s' ∧ Moves (fun i => sem (env i) i) i (withoutArena s) (withoutArena s') := by
  obtain @⟨threads, state, state', op, next, reply, pending, called⟩ := moved
  have pending : threads i = .call op next := pending
  obtain ⟨first, called, served⟩ := sharing_sem called
  have keys : (Program.call op next).Calls ClaimsKey := pending ▸ provided.keys i
  have room : claims op = true → 32 * (state.2.regions.length + 1) ≤ mapping.size := by
    intro claim
    cases op with
    | arenaClaim len =>
      have asks : (threads i).nextCall = some (.arenaClaim len) := by
        rw [pending]
        rfl
      exact provided.room uncrowded large asks
    | _ => cases claim
  obtain ⟨rfl, even, counts⟩ := serve_spec provided.even keys.1 room served
  refine ⟨⟨even, fun j => ?_, fun j => ?_⟩, .call pending called⟩
  · obtain ⟨left, few, within⟩ := provided.few j
    have few : (threads j).AtMost claims left := few
    have within : state.2.holders.count j + left ≤ 2 := within
    have count : state'.2.holders.count j ≤
        state.2.holders.count j + if j = i then (claims op).toNat else 0 := counts j
    by_cases same : j = i
    · subst same
      rw [pending] at few
      rw [if_pos rfl] at count
      -- a claim uses up one of those the caller may make
      obtain ⟨left', few', spent⟩ := few.answered reply
      refine ⟨left', ?_, show state'.2.holders.count j + left' ≤ 2 by omega⟩
      simp only [Function.update_self]
      exact few'
    · rw [if_neg same] at count
      refine ⟨left, ?_, (Nat.add_le_add_right count left).trans within⟩
      simp only [Function.update_of_ne same]
      exact few
  · by_cases same : j = i
    · subst same
      simp only [Function.update_self]
      exact keys.2 reply
    · simp only [Function.update_of_ne same]
      exact provided.keys j

theorem Provided.givesBack {threads : Tid → Prog Bytes} {w : World} {use : ArenaUse} {i : Tid}
    {region : Secrets.Region} (provided : Provided mapping ⟨threads, w, use⟩)
    (lent : (i, region) ∈ use.lent) : Provided mapping ⟨threads, w, use.giveBack bits i region⟩ := by
  refine ⟨provided.even.giveBack lent, fun j => ?_, provided.keys⟩
  obtain ⟨left, few, within⟩ := provided.few j
  have fewer : (use.giveBack bits i region).holders.Sublist use.holders :=
    List.erase_sublist.map Prod.fst
  exact ⟨left, few, (Nat.add_le_add_right (fewer.count_le j) left).trans within⟩

theorem Provided.run (provided : Provided mapping s) (large : 32 * (2 * n + 1) ≤ mapping.size)
    (run : Relation.ReflTransGen (fun s s' => Uncrowded n s ∧ Shares bits env s s') s s') :
    Provided mapping s' ∧ Interleaves (fun i => sem (env i) i) (withoutArena s) (withoutArena s') := by
  induction run with
  | refl => exact ⟨provided, .refl⟩
  | tail _ step ih =>
    obtain ⟨uncrowded, moved | lent⟩ := step
    · obtain ⟨after, moved⟩ := ih.1.moves uncrowded large moved
      exact ⟨after, ih.2.tail ⟨_, moved⟩⟩
    · exact ⟨ih.1.givesBack lent, ih.2⟩

end

section
variable {bits n : Nat} {env : Tid → Env} {s s' : Sharing} {busy : Finset Tid} {i : Tid}

theorem serve_holders {tid : Tid} {op : Op} {reply answer : Reply op} {use after : ArenaUse}
    (served : use.serve bits tid op reply = some (answer, after)) (holds : i ∈ after.holders) :
    i = tid ∨ i ∈ use.holders := by
  cases op with
  | arenaClaim len =>
    cases reply with
    | error e =>
      cases served
      exact .inr holds
    | ok value =>
      rw [ArenaUse.serve] at served
      split at served
      · cases served
        exact List.mem_cons.mp holds
      · cases served
        exact .inr holds
      · cases served
  | setCachedMk mk =>
    cases served
    exact .inr ((ArenaUse.keep_holders tid).mem holds)
  | _ =>
    cases served
    exact .inr holds

theorem Among.moves (among : Among busy s) (member : i ∈ busy)
    (moved : Moves (fun i => (sharing bits (env i) i).sem) i s s') : Among busy s' := by
  intro j arena
  by_cases same : j = i
  · exact same ▸ member
  · obtain holds | pending := arena
    · obtain ⟨_, called⟩ := moved
      obtain ⟨_, _, served⟩ := sharing_sem called
      exact among j (.inl ((serve_holders served holds).resolve_left same))
    · rw [moved.others same] at pending
      exact among j (.inr pending)

theorem Among.advance (among : Among busy s) (few : busy.card ≤ n) (member : i ∈ busy)
    (choose : Nat → Op → World × ArenaUse → Choice) (fuel : Nat) :
    Relation.ReflTransGen (fun s s' => Uncrowded n s ∧ Shares bits env s s') s
        (s.advance (fun i => sharing bits (env i) i) i choose fuel) ∧
      Among busy (s.advance (fun i => sharing bits (env i) i) i choose fuel) := by
  have moves : Relation.ReflTransGen (fun now next =>
      Moves (fun i => (sharing bits (env i) i).sem) i now next ∧ ∀ j, j ≠ i → now.threads j = s.threads j)
      s (s.advance (fun i => sharing bits (env i) i) i choose fuel) :=
    Leads.moves (follow_leads (sharing bits (env i) i) choose fuel 0 (s.threads i) s.world)
  generalize s.advance (fun i => sharing bits (env i) i) i choose fuel = last at moves ⊢
  induction moves with
  | refl => exact ⟨.refl, among⟩
  | tail _ moved ih =>
    exact ⟨ih.1.tail ⟨⟨busy, few, ih.2⟩, .moves moved.1⟩, ih.2.moves member moved.1⟩

end

/-- A mapping of the default capacity. -/
def twoPages : Secrets.Mapping 64 :=
  { Secrets.page with size := 8192, fits := by decide, zeroed := fun _ _ => rfl }

def sampleMap (size : Nat) (_ : Bool) : Except LithiumError (Secrets.Mapping 64 × Bool) :=
  if twoPages.size = size then .ok (twoPages, true) else .error (.internal "arena_mmap_failed")

theorem sampleMap_exact : Secrets.Exact sampleMap := by
  intro size requireLock mapping locked mapped
  rw [sampleMap] at mapped
  split at mapped
  · rename_i same
    cases mapped
    exact same
  · cases mapped

def sampleArena : Secrets.Arena := twoPages.arena

theorem sampleArena_built :
    Secrets.build 64 4096 sampleMap 8192 true () = .ok (sampleArena, true) () := by
  rw [Secrets.build, Secrets.bind_ok (Secrets.roundUp_eq (by decide) (by decide) (by decide) ())]
  rfl

/-- One thread rotates, two want the same secret, one signs, the others decrypt what is no
ciphertext. -/
def rivals : Tid → Task
  | 0 => .rotate
  | 1 | 2 => .secret32 [0xcd]
  | 4 => .sign [9] Crypto.rootA
  | _ => .decrypt [0xcd] [] [1]

def rivalsIn (arena : Secrets.Arena) : Sharing :=
  ⟨(samplesFrom rivals restingStore).threads, restingStore, .opening 64 false arena⟩

def Sharing.runs (s : Sharing) (i : Tid) (b : UInt8) (fuel : Nat) : Sharing :=
  s.advance (fun i => sharing 64 (sampleEnv false) i) i (fun n op state => plainly b someLeaf n op state.1) fuel

/-- The first caller is about to link its file when the second links its own; while it rotates the
seeds of a signature are still in the arena. -/
def rivalRun : Sharing :=
  ((((((rivalsIn sampleArena).runs 1 2 15).runs 2 3 100).runs 1 2 100).runs 4 5 100).runs 0 1 200).runs
    3 4 100

/-- What the callers come to while none but the first five have to do with the arena. -/
def RivalsReach (s : Sharing) : Prop :=
  Relation.ReflTransGen (fun s s' => Uncrowded 127 s ∧ Shares 64 (fun _ => sampleEnv false) s s')
    (rivalsIn sampleArena) s ∧ Among {0, 1, 2, 3, 4} s

theorem RivalsReach.runs {s : Sharing} {i : Tid} {b : UInt8} {fuel : Nat} (reached : RivalsReach s)
    (member : i ∈ ({0, 1, 2, 3, 4} : Finset Tid)) : RivalsReach (s.runs i b fuel) := by
  have few : Finset.card {0, 1, 2, 3, 4} ≤ 127 := by decide
  obtain ⟨more, among⟩ := reached.2.advance few member _ fuel
  exact ⟨reached.1.trans more, among⟩

section
variable {A : Suite} {S : SignatureSuite} {cached : Bool} {env : Tid → Env} {keys : Key → Prop}
  {seeds : Fixed 32 × Fixed 32} {tasks : Tid → Task} {mk : Key} {w : World} {s : Sharing}
  {bits pageSize capacity n : Nat} {requireLock locked : Bool} {arena : Secrets.Arena}
  {map : Nat → Bool → Except LithiumError (Secrets.Mapping bits × Bool)}

/-- Callers of a manager in service, in any interleaving of their steps with each other and with
rotations, none of whose calls fails and of whom at most `n` are in the arena at once: every
rotation that has returned succeeded, every request to sign was answered, and any other request was
answered, or refused for a reason that is its own. -/
theorem requests_settled (lawful : (storeCrypto A S).Lawful)
    (separated : Separated (storeCrypto A S) keys) (callers : Callers env tasks keys)
    (faultless : ∀ i, (env i).faults = false) (service : InService (storeCrypto A S) cached mk w)
    (known : keys mk) (seeded : SeedsHeld (holdings (storeCrypto A S) cached w) seeds)
    (unlocked : w.control.writer = none ∧ w.control.readers = []) (exact : Secrets.Exact map)
    (paged : 0 < pageSize) (word : max capacity 1 < 2 ^ bits)
    (built : Secrets.build bits pageSize map capacity requireLock () = .ok (arena, locked) ())
    (room : 32 * (2 * n + 1) ≤ capacity)
    (run : Relation.ReflTransGen (fun s s' => Uncrowded n s ∧ Shares bits env s s')
      ⟨fun i => (tasks i).program A S cached .linkNoReplace, w, .opening bits cached arena⟩ s) :
    ∃ held : Payloads, (holdings (storeCrypto A S) cached w).Grows held ∧
      Sound (storeCrypto A S) (.plain keys) held False s.world.1 ∧
      (s.world.1.control.writer = none → held = holdings (storeCrypto A S) cached s.world.1) ∧
      ∀ i result, s.threads i = .done result → (tasks i).Settled A S held result := by
  obtain ⟨mapping, rfl, large⟩ := Secrets.build_eq exact paged word built
  obtain ⟨even, lent⟩ := opening_even cached (show 32 ≤ mapping.size by omega)
  have start : Provided mapping ⟨fun i => (tasks i).program A S cached .linkNoReplace, w,
      .opening bits cached mapping.arena⟩ := by
    refine ⟨even, fun i => ⟨2, (tasks i).claims_atMost, ?_⟩, fun i => (tasks i).claimsKey⟩
    simp [ArenaUse.holders, lent]
  obtain ⟨_, plain⟩ := start.run (room.trans large) run
  exact callers.settled lawful separated faultless service known seeded unlocked plain

end

/-- Both callers are given the second one's secret; the ciphertext is refused. In an arena with
room for one key it would be the request to sign. -/
theorem requests_settled_sample :
    (((rivalsIn ⟨⟨4096, 32, 0, ∅⟩, false, fun _ => 0⟩).runs 4 5 100).threads 4).outcome =
      some (.error (.internal "arena_exhausted")) ∧
    ((rivalRun.threads 1).outcome = some (.ok (uniform 3).1) ∧
      (rivalRun.threads 3).outcome = some (.error .aeadFailed) ∧
      (rivalRun.threads 4).outcome.isSome = true ∧ rivalRun.world.2.holders = [4, 4] ∧
      rivalRun.world.1.control.providerMk = some (uniform 1)) ∧
    ∃ held, held = holdings (storeCrypto taggedSuite repeating) false rivalRun.world.1 ∧
      (rivals 1).Settled taggedSuite repeating held (.ok (uniform 3).1) ∧
      (rivals 3).Settled taggedSuite repeating held (.error .aeadFailed) := by
  have checked : ((rivalRun.threads 1).outcome = some (.ok (uniform 3).1) ∧
      (rivalRun.threads 3).outcome = some (.error .aeadFailed) ∧
      (rivalRun.threads 4).outcome.isSome = true ∧ rivalRun.world.2.holders = [4, 4] ∧
      rivalRun.world.1.control.providerMk = some (uniform 1)) ∧
      rivalRun.world.1.control.writer = none := by
    decide +kernel
  obtain ⟨⟨first, third, rest⟩, idle⟩ := checked
  have resting := restingStore_resting
  have service : InService (storeCrypto taggedSuite repeating) false (uniform 0) restingStore :=
    ⟨resting.provided.1, resting.provided.1, resting.unmarked, resting.opens, resting.tidy, rfl⟩
  have seeded : SeedsHeld (holdings (storeCrypto taggedSuite repeating) false restingStore)
      (uniform 5, uniform 6) :=
    ⟨holdings_eq_some.mpr ⟨_, ktEdSeed, resting.provided.1, by decide, resting.ed⟩,
      holdings_eq_some.mpr ⟨_, ktDiliSeed, resting.provided.1, by decide, resting.dili⟩⟩
  have fits : ∀ i, (rivals i).Fits := fun i => by
    unfold rivals
    split <;> trivial
  have callers : Callers (fun _ => sampleEnv false) rivals Uniform :=
    ⟨fits, fun _ _ => rfl, fun _ => sampleEnv_fresh false⟩
  -- no program begins with a claim
  have start : Among {0, 1, 2, 3, 4} (rivalsIn sampleArena) := by
    rintro i (held | ⟨len, pending⟩)
    · cases held
    · have begins : ∀ task : Task, ∀ len, (task.program taggedSuite repeating false
          .linkNoReplace).nextCall ≠ some (.arenaClaim len) := by
        rintro (_ | _ | _ | _ | _ | _) len ⟨⟩
      exact absurd pending (begins (rivals i) len)
  have begun : RivalsReach (rivalsIn sampleArena) := ⟨.refl, start⟩
  have reached : RivalsReach rivalRun := (((((begun.runs (by decide)).runs (by decide)).runs
    (by decide)).runs (by decide)).runs (by decide)).runs (by decide)
  obtain ⟨held, _, _, valued, settled⟩ := requests_settled taggedSuite_tagging.lawful
    taggedSuite_separated callers (fun _ => rfl) service (uniform_uniform 0) seeded ⟨rfl, rfl⟩
    sampleMap_exact (by decide) (by decide) sampleArena_built (by decide) reached.1
  exact ⟨by decide +kernel, ⟨first, third, rest⟩, held, valued idle, settled 1 _ (Program.eq_done first),
    settled 3 _ (Program.eq_done third)⟩

end Lithium.Keys
