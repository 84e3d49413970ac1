import Lithium.Secrets.Json
import Lithium.Keys.Primitives

/-! Wiping a JSON document (`SecretJson::zeroize_value` and the drop of `SecretJson`). Texts
own buffers of the heap; a log tells when a buffer is wiped and when it is released, also
when a value that still owns it is dropped. -/
namespace Lithium.Secrets
open Keys (Bytes)

/-- A `String`: the buffer it owns, if it has one, and its contents. -/
structure Text where
  buffer : Option Nat
  content : Bytes
  owned : buffer = none → content = []

inductive BufferEvent where
  | wiped (buffer : Nat)
  | released (buffer : Nat)
  deriving DecidableEq

def BufferEvent.buffer : BufferEvent → Nat
  | .wiped buffer | .released buffer => buffer

abbrev WipeM := StateM (List BufferEvent)

def record (event : BufferEvent) : WipeM Unit := modify (· ++ [event])

namespace Text

def new : Text := ⟨none, [], fun _ => rfl⟩

/-- `String::clear`, which keeps the buffer. -/
def clear (self : Text) : Text := ⟨self.buffer, [], fun _ => rfl⟩

/-- `Zeroize for String`: the buffer is overwritten, then cleared. -/
def zeroize (self : Text) : WipeM Text := do
  match self.buffer with
  | none => return self.clear
  | some buffer =>
    record (.wiped buffer)
    return self.clear

def drop (self : Text) : WipeM Unit :=
  match self.buffer with
  | none => return ()
  | some buffer => record (.released buffer)

/-- `String::shrink_to_fit`: an empty text gives its buffer back. -/
def shrinkToFit (self : Text) : WipeM Text :=
  if self.content = [] then do
    self.drop
    return new
  else return self

/-- `s.zeroize(); s.clear(); s.shrink_to_fit()`. -/
def wipe (self : Text) : WipeM Text := do
  let self ← self.zeroize
  self.clear.shrinkToFit

end Text

mutual

/-- What dropping a value does to the texts in it. -/
def dropValue : Value Text → WipeM Unit
  | .string s => s.drop
  | .array elems => dropElems elems
  | .object map => dropEntries map
  | .number _ | .bool _ | .null => return ()

def dropElems : List (Value Text) → WipeM Unit
  | [] => return ()
  | elem :: elems => do
    dropValue elem
    dropElems elems

def dropEntries : List (Text × Value Text) → WipeM Unit
  | [] => return ()
  | (k, v) :: map => do
    k.drop
    dropValue v
    dropEntries map

end

mutual

/-- `SecretJson::zeroize_value`. -/
def zeroizeValue : Value Text → WipeM (Value Text)
  | .string s => do return .string (← s.wipe)
  | .array elems => do
    let elems ← zeroizeElems elems
    -- `arr.clear()` drops what is left of the elements
    dropElems elems
    return .array []
  | .object map => do
    -- `mem::take` leaves an empty map behind
    zeroizeEntries map
    return .object []
  | .number _ => return .null
  | .bool b => return .bool b
  | .null => return .null

def zeroizeElems : List (Value Text) → WipeM (List (Value Text))
  | [] => return []
  | elem :: elems => do
    let elem ← zeroizeValue elem
    let elems ← zeroizeElems elems
    return elem :: elems

def zeroizeEntries : List (Text × Value Text) → WipeM Unit
  | [] => return ()
  | (k, v) :: map => do
    let v ← zeroizeValue v
    dropValue v
    let k ← k.wipe
    k.drop
    zeroizeEntries map

end

/-- `Drop for SecretJson`, and then of its value. -/
def dropSecretJson (v : Value Text) : WipeM Unit := do
  let v ← zeroizeValue v
  dropValue v

namespace Value
variable {τ : Type}

/-- Induction over values: a container has what its members have. -/
@[elab_as_elim]
theorem members_induction {motive : Value τ → Prop} (null : motive .null)
    (bool : ∀ b, motive (.bool b)) (number : ∀ n, motive (.number n))
    (string : ∀ s, motive (.string s))
    (array : ∀ elems, (∀ v ∈ elems, motive v) → motive (.array elems))
    (object : ∀ map, (∀ entry ∈ map, motive entry.2) → motive (.object map)) (v : Value τ) :
    motive v := by
  apply @Value.rec τ motive (fun elems => ∀ v ∈ elems, motive v)
    (fun map => ∀ entry ∈ map, motive entry.2) (fun entry => motive entry.2) null bool number string
    array object
  · simp
  · intro elem elems first rest
    exact List.forall_mem_cons.mpr ⟨first, rest⟩
  · simp
  · intro entry map first rest
    exact List.forall_mem_cons.mpr ⟨first, rest⟩
  · intro key v holds
    exact holds

/-- A text stands somewhere in a value, as a string or as a key. -/
inductive Occurs (text : τ) : Value τ → Prop
  | string : Occurs text (.string text)
  | elem {elems : List (Value τ)} {v : Value τ} (member : v ∈ elems) (inside : Occurs text v) :
    Occurs text (.array elems)
  | key {map : List (τ × Value τ)} {v : Value τ} (member : (text, v) ∈ map) :
    Occurs text (.object map)
  | value {map : List (τ × Value τ)} {key : τ} {v : Value τ} (member : (key, v) ∈ map)
    (inside : Occurs text v) : Occurs text (.object map)

mutual

/-- All texts of a value, each key behind the texts of its value. -/
def texts : Value τ → List τ
  | .string s => [s]
  | .array elems => elemTexts elems
  | .object map => entryTexts map
  | .number _ | .bool _ | .null => []

def elemTexts : List (Value τ) → List τ
  | [] => []
  | elem :: elems => texts elem ++ elemTexts elems

def entryTexts : List (τ × Value τ) → List τ
  | [] => []
  | (k, v) :: map => texts v ++ k :: entryTexts map

end

theorem mem_elemTexts {text : τ} {elems : List (Value τ)} :
    text ∈ elemTexts elems ↔ ∃ v ∈ elems, text ∈ v.texts := by
  induction elems with
  | nil => simp [elemTexts]
  | cons elem elems ih => simp [elemTexts, ih]

theorem mem_entryTexts {text : τ} {map : List (τ × Value τ)} :
    text ∈ entryTexts map ↔ ∃ entry ∈ map, text = entry.1 ∨ text ∈ entry.2.texts := by
  induction map with
  | nil => simp [entryTexts]
  | cons entry map ih =>
    obtain ⟨key, v⟩ := entry
    simp only [entryTexts, List.mem_append, List.mem_cons, ih, exists_eq_or_imp]
    rw [or_left_comm, or_assoc]

/-- `texts` lists what stands in a value, at any depth. -/
theorem mem_texts {text : τ} {v : Value τ} : text ∈ v.texts ↔ Occurs text v := by
  constructor
  · induction v using members_induction with
    | null => simp [texts]
    | bool b => simp [texts]
    | number n => simp [texts]
    | string s =>
      intro member
      rw [List.mem_singleton.mp member]
      exact .string
    | array elems ih =>
      intro member
      obtain ⟨v, inside, listed⟩ := mem_elemTexts.mp member
      exact .elem inside (ih v inside listed)
    | object map ih =>
      intro member
      obtain ⟨⟨key, v⟩, inside, rfl | listed⟩ := mem_entryTexts.mp member
      · exact .key inside
      · exact .value inside (ih (key, v) inside listed)
  · intro occurs
    induction occurs with
    | string => exact List.mem_singleton.mpr rfl
    | elem member _ ih => exact mem_elemTexts.mpr ⟨_, member, ih⟩
    | key member => exact mem_entryTexts.mpr ⟨_, member, .inl rfl⟩
    | value member _ ih => exact mem_entryTexts.mpr ⟨_, member, .inr ih⟩

end Value

/-- What wiping a text writes to the log. -/
def Text.events (text : Text) : List BufferEvent :=
  match text.buffer with
  | none => []
  | some buffer => [.wiped buffer, .released buffer]

/-- What wiping leaves of a value. -/
def Value.blank : Value Text → Value Text
  | .string _ => .string .new
  | .array _ => .array []
  | .object _ => .object []
  | .number _ => .null
  | .bool b => .bool b
  | .null => .null

theorem run_bind {α β : Type} (first : WipeM α) (next : α → WipeM β) (log : List BufferEvent) :
    (first >>= next).run log = (next (first.run log).1).run (first.run log).2 := rfl

theorem Text.wipe_run (text : Text) (log : List BufferEvent) :
    text.wipe.run log = (Text.new, log ++ text.events) := by
  obtain ⟨buffer, content, owned⟩ := text
  cases buffer with
  | none =>
    rw [events, List.append_nil]
    rfl
  | some buffer =>
    have twice : log ++ [.wiped buffer, .released buffer] =
        log ++ [.wiped buffer] ++ [.released buffer] := by simp
    rw [events, twice]
    rfl

theorem dropValue_blank (v : Value Text) (log : List BufferEvent) :
    (dropValue v.blank).run log = ((), log) := by
  cases v <;> rfl

theorem dropElems_blank (elems : List (Value Text)) (log : List BufferEvent) :
    (dropElems (elems.map Value.blank)).run log = ((), log) := by
  induction elems with
  | nil => rfl
  | cons elem elems ih => rw [List.map_cons, dropElems, run_bind, dropValue_blank, ih]

/-- Wiping `v` writes a wipe and a release for each of its texts, in this order. -/
def Wipes (v : Value Text) : Prop :=
  ∀ log, (zeroizeValue v).run log = (v.blank, log ++ v.texts.flatMap Text.events)

theorem zeroizeElems_run {elems : List (Value Text)} (wipes : ∀ v ∈ elems, Wipes v)
    (log : List BufferEvent) : (zeroizeElems elems).run log =
      (elems.map Value.blank, log ++ (Value.elemTexts elems).flatMap Text.events) := by
  induction elems generalizing log with
  | nil =>
    rw [Value.elemTexts, List.flatMap_nil, List.append_nil]
    rfl
  | cons elem elems ih =>
    obtain ⟨first, rest⟩ := List.forall_mem_cons.mp wipes
    rw [zeroizeElems, run_bind, first, run_bind, ih rest, Value.elemTexts, List.flatMap_append,
      ← List.append_assoc]
    rfl

theorem zeroizeEntries_run {map : List (Text × Value Text)}
    (wipes : ∀ entry ∈ map, Wipes entry.2) (log : List BufferEvent) :
    (zeroizeEntries map).run log =
      ((), log ++ (Value.entryTexts map).flatMap Text.events) := by
  induction map generalizing log with
  | nil =>
    rw [Value.entryTexts, List.flatMap_nil, List.append_nil]
    rfl
  | cons entry map ih =>
    obtain ⟨key, v⟩ := entry
    obtain ⟨first, rest⟩ := List.forall_mem_cons.mp wipes
    rw [zeroizeEntries, run_bind, first, run_bind, dropValue_blank, run_bind, Text.wipe_run,
      run_bind]
    change (zeroizeEntries map).run (log ++ v.texts.flatMap Text.events ++ key.events) = _
    rw [ih rest, Value.entryTexts, List.flatMap_append, List.flatMap_cons]
    simp only [List.append_assoc]

theorem wipes (v : Value Text) : Wipes v := by
  induction v using Value.members_induction with
  | null =>
    intro log
    rw [Value.texts, List.flatMap_nil, List.append_nil]
    rfl
  | bool b =>
    intro log
    rw [Value.texts, List.flatMap_nil, List.append_nil]
    rfl
  | number n =>
    intro log
    rw [Value.texts, List.flatMap_nil, List.append_nil]
    rfl
  | string s =>
    intro log
    rw [zeroizeValue, run_bind, s.wipe_run, Value.texts, List.flatMap_singleton]
    rfl
  | array elems ih =>
    intro log
    rw [zeroizeValue, run_bind, zeroizeElems_run ih, run_bind, dropElems_blank, Value.texts]
    rfl
  | object map ih =>
    intro log
    rw [zeroizeValue, run_bind, zeroizeEntries_run ih, Value.texts]
    rfl

/-- The buffers that the texts of a value own. -/
def Value.buffers (v : Value Text) : List Nat := v.texts.filterMap Text.buffer

/-- Nothing of a string, no number, no element and no entry. -/
def Value.Bare : Value Text → Prop
  | .string s => s.content = [] ∧ s.buffer = none
  | .array elems => elems = []
  | .object map => map = []
  | .number _ => False
  | .bool _ | .null => True

theorem Value.blank_bare (v : Value Text) : v.blank.Bare := by
  cases v <;> simp [blank, Bare, Text.new]

/-- Each buffer has one wipe and one release for each text that owns it. -/
theorem count_events (texts : List Text) (buffer : Nat) :
    (texts.flatMap Text.events).count (.wiped buffer) =
      (texts.filterMap Text.buffer).count buffer ∧
    (texts.flatMap Text.events).count (.released buffer) =
      (texts.filterMap Text.buffer).count buffer := by
  induction texts with
  | nil => exact ⟨rfl, rfl⟩
  | cons text texts ih =>
    rw [List.flatMap_cons, List.filterMap_cons, Text.events]
    cases owns : text.buffer with
    | none => exact ih
    | some other => simp [List.count_cons, ih]

theorem events_of_mem {texts : List Text} {text : Text} {buffer : Nat} (member : text ∈ texts)
    (owns : text.buffer = some buffer) :
    ∃ before after, texts.flatMap Text.events =
      before ++ .wiped buffer :: .released buffer :: after := by
  obtain ⟨front, back, rfl⟩ := List.append_of_mem member
  refine ⟨front.flatMap Text.events, back.flatMap Text.events, ?_⟩
  rw [List.flatMap_append, List.flatMap_cons, Text.events, owns]
  rfl

theorem mem_events {texts : List Text} {event : BufferEvent}
    (member : event ∈ texts.flatMap Text.events) :
    ∃ text ∈ texts, text.buffer = some event.buffer := by
  obtain ⟨text, inside, listed⟩ := List.mem_flatMap.mp member
  refine ⟨text, inside, ?_⟩
  rw [Text.events] at listed
  cases owns : text.buffer with
  | none =>
    rw [owns] at listed
    cases listed
  | some buffer =>
    rw [owns] at listed
    rcases List.mem_pair.mp listed with rfl | rfl
    · rfl
    · rfl

/-- In a document whose texts own their buffers alone, wiping it wipes and releases the
buffer of every string and every key exactly once, the wipe first, and no other buffer; what
is left holds nothing. Dropping the document adds nothing to the log. -/
theorem zeroize_reaches_all (v : Value Text) (alone : v.buffers.Nodup) :
    (∀ text, v.Occurs text → ∀ buffer, text.buffer = some buffer →
      ((zeroizeValue v).run []).2.count (.wiped buffer) = 1 ∧
      ((zeroizeValue v).run []).2.count (.released buffer) = 1 ∧
      ∃ before after, ((zeroizeValue v).run []).2 =
        before ++ .wiped buffer :: .released buffer :: after) ∧
    (∀ event ∈ ((zeroizeValue v).run []).2, ∃ text, v.Occurs text ∧
      text.buffer = some event.buffer) ∧
    ((zeroizeValue v).run []).1.Bare ∧
    ((dropSecretJson v).run []).2 = ((zeroizeValue v).run []).2 := by
  rw [dropSecretJson, run_bind, wipes v, dropValue_blank, List.nil_append]
  refine ⟨?_, ?_, v.blank_bare, rfl⟩
  · intro text occurs buffer owns
    have member := Value.mem_texts.mpr occurs
    have listed : buffer ∈ v.buffers := List.mem_filterMap.mpr ⟨text, member, owns⟩
    have once : v.buffers.count buffer = 1 := List.count_eq_one_of_mem alone listed
    obtain ⟨wiped, released⟩ := count_events v.texts buffer
    exact ⟨wiped.trans once, released.trans once, events_of_mem member owns⟩
  · intro event member
    obtain ⟨text, inside, owns⟩ := mem_events member
    exact ⟨text, Value.mem_texts.mp inside, owns⟩

def heapText (buffer : Nat) (byte : UInt8) : Text := ⟨some buffer, [byte], by simp⟩

def nestedDocument : Value Text :=
  .object [(heapText 0 97, .array [.string (heapText 1 98), .number (.posInt 7),
    .object [(heapText 2 99, .string (heapText 3 100))]])]

theorem zeroize_reaches_all_nested :
    ((zeroizeValue nestedDocument).run []).2.count (.wiped 3) = 1 ∧
    ((zeroizeValue nestedDocument).run []).1.Bare := by
  have alone : nestedDocument.buffers.Nodup := by decide
  have occurs : nestedDocument.Occurs (heapText 3 100) := by
    apply Value.mem_texts.mp
    simp [nestedDocument, Value.texts, Value.entryTexts, Value.elemTexts]
  obtain ⟨reached, -, bare, -⟩ := zeroize_reaches_all nestedDocument alone
  exact ⟨(reached _ occurs 3 rfl).1, bare⟩

end Lithium.Secrets
