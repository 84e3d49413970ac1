import Lithium.Secrets.Json
import Mathlib.Data.List.Basic

/-! Taking fields out of a document is all or nothing. Each taker checks with one function
and converts with another; they agree on every value, so a taker either returns what its
getter reads and removes the field, or fails with its getter's error and changes nothing. -/
namespace Lithium.Secrets
open Keys (LithiumError)

inductive Kind where
  | string | bool | i64 | u64 | f64 | array | object
  deriving DecidableEq

inductive Field where
  | string (s : String)
  | bool (b : Bool)
  | i64 (n : Int64)
  | u64 (n : UInt64)
  | f64 (f : Float)
  | array (elems : List SecretJson)
  | object (value : SecretJson)

namespace Kind
open SecretJson

def read : Kind → SecretJson → Option Field
  | .string, v => v.asStr.map .string
  | .bool, v => v.asBool.map .bool
  | .i64, v => v.asI64.map .i64
  | .u64, v => v.asU64.map .u64
  | .f64, v => v.asF64.map .f64
  | .array, v => v.asArray.map .array
  | .object, v => v.asObject.map fun map => .object (.object map)

/-- The check that a taker makes before it removes anything. -/
def fits : Kind → SecretJson → Bool
  | .string => Value.isString
  | .bool => Value.isBoolean
  | .i64 => fun v => v.asI64.isSome
  | .u64 => fun v => v.asU64.isSome
  | .f64 => fun v => v.asF64.isSome
  | .array => Value.isArray
  | .object => Value.isObject

def take : Kind → String → EStateM LithiumError SecretJson Field
  | .string, key => Field.string <$> takeString key
  | .bool, key => Field.bool <$> takeBool key
  | .i64, key => Field.i64 <$> takeI64 key
  | .u64, key => Field.u64 <$> takeU64 key
  | .f64, key => Field.f64 <$> takeF64 key
  | .array, key => Field.array <$> takeArray key
  | .object, key => Field.object <$> takeObject key

def getter : Kind → Option (SecretJson → String → Except LithiumError Field)
  | .string => some fun self key => (getString self key).map .string
  | .bool => some fun self key => (getBool self key).map .bool
  | .i64 => some fun self key => (getInteger self key).map .i64
  | .u64 | .f64 => none
  | .array => some fun self key => (getArray self key).map .array
  | .object => some fun self key => (getObject self key).map .object

end Kind

namespace SecretJson
variable {α : Type}

/-- The check and the conversion of a taker agree with how the value is read. -/
structure Agrees (fits : SecretJson → Bool) (finish : Option SecretJson → Except LithiumError α)
    (read : SecretJson → Option α) : Prop where
  fits_eq : ∀ v, fits v = (read v).isSome
  finishes : ∀ v value, read v = some value → finish (some v) = .ok value

/-- The document without some of its fields. -/
def without (keys : List String) : SecretJson → SecretJson
  | .object map => .object (map.filter fun entry => entry.1 ∉ keys)
  | doc => doc

theorem ensureTakeable_ok {fits : SecretJson → Bool} {map : List (String × SecretJson)}
    {key : String} {v : SecretJson} (found : map.lookup key = some v) (fit : fits v = true) :
    ensureTakeable (.object map) key fits = .ok () := by
  simp only [ensureTakeable, obj, Value.asObject, bind, Except.bind, found, fit]
  rfl

theorem takeAs_refused {fits : SecretJson → Bool}
    {finish : Option SecretJson → Except LithiumError α} {doc : SecretJson} {key : String}
    {error : LithiumError} (refused : doc.ensureTakeable key fits = .error error) :
    takeAs key fits finish doc = .error error doc := by
  change (ofExcept (doc.ensureTakeable key fits) >>= fun _ =>
    remove key >>= fun removed => ofExcept (finish removed) : EStateM _ _ _) doc = _
  rw [refused]
  rfl

theorem takeAs_taken {fits : SecretJson → Bool}
    {finish : Option SecretJson → Except LithiumError α} {map : List (String × SecretJson)}
    {key : String} {value : α} (fine : ensureTakeable (.object map) key fits = .ok ())
    (finished : finish (map.lookup key) = .ok value) :
    takeAs key fits finish (.object map) = .ok value (without [key] (.object map)) := by
  change (ofExcept (ensureTakeable (.object map) key fits) >>= fun _ =>
    remove key >>= fun removed => ofExcept (finish removed) : EStateM _ _ _) _ = _
  rw [fine]
  change (ofExcept (finish (map.lookup key)) : EStateM _ _ _)
    (Value.object (map.filter fun entry => entry.1 ≠ key)) = _
  rw [finished, without]
  simp only [List.mem_singleton]
  rfl

/-- What a taker and its getter can do: find the field and read it, or fail alike, with the
document as it was. -/
theorem field_cases {fits : SecretJson → Bool}
    {finish : Option SecretJson → Except LithiumError α} {read : SecretJson → Option α}
    (agrees : Agrees fits finish read) (doc : SecretJson) (key : String) :
    (∃ map v value, doc = .object map ∧ map.lookup key = some v ∧ read v = some value ∧
      getAs read doc key = .ok value ∧
      takeAs key fits finish doc = .ok value (doc.without [key])) ∨
    ∃ error, doc.ensureTakeable key fits = .error error ∧ getAs read doc key = .error error ∧
      takeAs key fits finish doc = .error error doc := by
  have refuse : ∀ error, doc.ensureTakeable key fits = .error error →
      getAs read doc key = .error error →
      ∃ error, doc.ensureTakeable key fits = .error error ∧ getAs read doc key = .error error ∧
        takeAs key fits finish doc = .error error doc :=
    fun error refused failed => ⟨error, refused, failed, takeAs_refused refused⟩
  cases doc with
  | object map =>
    cases found : map.lookup key with
    | none =>
      right
      apply refuse (.jsonMissingField key)
      · simp only [ensureTakeable, obj, Value.asObject, bind, Except.bind, found]
        rfl
      · simp only [getAs, obj, Value.asObject, bind, Except.bind, found]
        rfl
    | some v =>
      cases readable : read v with
      | none =>
        right
        have unfit : fits v = false := by rw [agrees.fits_eq, readable]; rfl
        apply refuse (.jsonTypeMismatch key v.tyName)
        · simp only [ensureTakeable, obj, Value.asObject, bind, Except.bind, found, unfit]
          rfl
        · simp only [getAs, obj, Value.asObject, bind, Except.bind, found, readable]
          rfl
      | some value =>
        left
        have fit : fits v = true := by rw [agrees.fits_eq, readable]; rfl
        have fine : ensureTakeable (.object map) key fits = .ok () := ensureTakeable_ok found fit
        have finished : finish (map.lookup key) = .ok value := by
          rw [found]
          exact agrees.finishes v value readable
        refine ⟨map, v, value, rfl, found, readable, ?_, takeAs_taken fine finished⟩
        simp only [getAs, obj, Value.asObject, bind, Except.bind, found, readable]
        rfl
  | _ => exact .inr (refuse .jsonNotObject rfl rfl)

theorem string_agrees (key : String) :
    Agrees Value.isString (finishString key) (Value.asStr : SecretJson → Option String) where
  fits_eq _ := rfl
  finishes v value readable := by
    cases v <;> cases readable
    rfl

theorem bool_agrees (key : String) :
    Agrees Value.isBoolean (finishBool key) (Value.asBool : SecretJson → Option Bool) where
  fits_eq _ := rfl
  finishes v value readable := by
    cases v <;> cases readable
    rfl

theorem number_agrees (key : String) (read : Number → Option α) :
    Agrees (fun v => (v.numberAs read).isSome) (finishNumber key read) (Value.numberAs read) where
  fits_eq _ := rfl
  finishes v value readable := by
    cases v with
    | number n =>
      have readable : read n = some value := readable
      rw [finishNumber, readable]
    | _ => cases readable

theorem array_agrees (key : String) :
    Agrees Value.isArray (finishArray key) (Value.asArray : SecretJson → _) where
  fits_eq _ := rfl
  finishes v value readable := by
    cases v <;> cases readable
    rfl

theorem object_agrees (key : String) :
    Agrees Value.isObject (finishObject key) (fun v => v.asObject.map Value.object) where
  fits_eq v := by rw [Value.isObject, Option.isSome_map]
  finishes v value readable := by
    cases v <;> cases readable
    rfl

end SecretJson

namespace Kind
open SecretJson

theorem fits_eq (kind : Kind) (v : SecretJson) : kind.fits v = (kind.read v).isSome := by
  cases kind <;> simp [fits, read, Value.isString, Value.isBoolean, Value.isArray, Value.isObject]

/-- What the taker and the getter of a kind can do. -/
structure Found (kind : Kind) (doc : SecretJson) (key : String) (field : Field) : Prop where
  taken : kind.take key doc = .ok field (doc.without [key])
  got : ∀ getter, kind.getter = some getter → getter doc key = .ok field
  held : ∃ map v, doc = .object map ∧ map.lookup key = some v ∧ kind.read v = some field

structure Refused (kind : Kind) (doc : SecretJson) (key : String) (error : LithiumError) : Prop where
  checked : doc.ensureTakeable key kind.fits = .error error
  kept : kind.take key doc = .error error doc
  got : ∀ getter, kind.getter = some getter → getter doc key = .error error

theorem cases_of {α : Type} (kind : Kind) {doc : SecretJson} {key : String} {wrap : α → Field}
    {finish : Option SecretJson → Except LithiumError α} {read : SecretJson → Option α}
    (agrees : Agrees kind.fits finish read)
    (taker : kind.take key = wrap <$> takeAs key kind.fits finish)
    (reads : ∀ v, kind.read v = (read v).map wrap)
    (gets : ∀ getter, kind.getter = some getter →
      getter doc key = (getAs read doc key).map wrap) :
    (∃ field, kind.Found doc key field) ∨ ∃ error, kind.Refused doc key error := by
  rcases SecretJson.field_cases agrees doc key with
    ⟨map, v, value, isObject, found, readable, got, taken⟩ | ⟨error, checked, failed, kept⟩
  · left
    refine ⟨wrap value, ?_, ?_, map, v, isObject, found, ?_⟩
    · rw [taker]
      change EStateM.map wrap _ doc = _
      rw [EStateM.map, taken]
    · intro getter has
      rw [gets getter has, got]
      rfl
    · rw [reads, readable]
      rfl
  · right
    refine ⟨error, checked, ?_, ?_⟩
    · rw [taker]
      change EStateM.map wrap _ doc = _
      rw [EStateM.map, kept]
    · intro getter has
      rw [gets getter has, failed]
      rfl

theorem found_or_refused (kind : Kind) (doc : SecretJson) (key : String) :
    (∃ field, kind.Found doc key field) ∨ ∃ error, kind.Refused doc key error := by
  cases kind with
  | string =>
    apply cases_of .string (string_agrees key) rfl (fun _ => rfl)
    rintro getter ⟨⟩
    rfl
  | bool =>
    apply cases_of .bool (bool_agrees key) rfl (fun _ => rfl)
    rintro getter ⟨⟩
    rfl
  | i64 =>
    apply cases_of .i64 (number_agrees key Number.asI64) rfl (fun _ => rfl)
    rintro getter ⟨⟩
    rfl
  | u64 =>
    apply cases_of .u64 (number_agrees key Number.asU64) rfl (fun _ => rfl)
    rintro getter ⟨⟩
  | f64 =>
    apply cases_of .f64 (number_agrees key Number.asF64) rfl (fun _ => rfl)
    rintro getter ⟨⟩
  | array =>
    apply cases_of .array (array_agrees key) rfl (fun _ => rfl)
    rintro getter ⟨⟩
    rfl
  | object =>
    apply cases_of .object (object_agrees key) rfl
    · intro v
      cases v <;> rfl
    · rintro getter ⟨⟩
      rfl

end Kind

/-- The replies to a sequence of takes, each with the key asked for, and the document after
them. -/
def takeAll : List (Kind × String) → SecretJson →
    List (String × Except LithiumError Field) × SecretJson
  | [], doc => ([], doc)
  | (kind, key) :: requests, doc =>
    match kind.take key doc with
    | .ok field doc => ((key, .ok field) :: (takeAll requests doc).1, (takeAll requests doc).2)
    | .error error doc => ((key, .error error) :: (takeAll requests doc).1, (takeAll requests doc).2)

def takenKeys (replies : List (String × Except LithiumError Field)) : List String :=
  (replies.filter (·.2.isOk)).map (·.1)

namespace SecretJson

/-- A field of the root under a key, readable as some kind. -/
def Holds (doc : SecretJson) (key : String) (field : Field) : Prop :=
  ∃ map v kind, doc = .object map ∧ map.lookup key = some v ∧ Kind.read kind v = some field

theorem without_nil (doc : SecretJson) : doc.without [] = doc := by
  cases doc <;> simp [without]

theorem without_without (keys others : List String) (doc : SecretJson) :
    (doc.without keys).without others = doc.without (keys ++ others) := by
  cases doc with
  | object map => simp [without, List.filter_filter, Bool.and_comm]
  | _ => rfl

theorem lookup_filter {keys : List String} {key : String} (map : List (String × SecretJson)) :
    (map.filter fun entry => entry.1 ∉ keys).lookup key =
      if key ∈ keys then none else map.lookup key := by
  induction map with
  | nil => simp
  | cons entry map ih =>
    by_cases removed : entry.1 ∈ keys
    · rw [List.filter_cons_of_neg (by simpa using removed), ih, List.lookup_cons]
      by_cases same : key = entry.1
      · rw [same, if_pos removed, if_pos removed]
      · rw [beq_false_of_ne same]
    · rw [List.filter_cons_of_pos (by simpa using removed), List.lookup_cons, List.lookup_cons, ih]
      by_cases same : key = entry.1
      · simp [same, removed]
      · rw [beq_false_of_ne same]

/-- What a document without some fields holds, it held under another key. -/
theorem Holds.of_without {doc : SecretJson} {keys : List String} {key : String} {field : Field}
    (holds : (doc.without keys).Holds key field) : key ∉ keys ∧ doc.Holds key field := by
  obtain ⟨map, v, kind, isObject, found, readable⟩ := holds
  cases doc with
  | object original =>
    cases isObject
    rw [lookup_filter] at found
    split at found
    · cases found
    · rename_i kept
      exact ⟨kept, original, v, kind, rfl, found, readable⟩
  | _ => cases isObject

end SecretJson
open SecretJson

theorem mem_takenKeys {replies : List (String × Except LithiumError Field)} {key : String}
    (member : key ∈ takenKeys replies) : ∃ field, (key, .ok field) ∈ replies := by
  obtain ⟨⟨key, reply⟩, kept, rfl⟩ := List.mem_map.mp member
  obtain ⟨inside, succeeded⟩ := List.mem_filter.mp kept
  cases reply with
  | error error => cases succeeded
  | ok field => exact ⟨field, inside⟩

theorem takeAll_spec (requests : List (Kind × String)) (doc : SecretJson) :
    (takenKeys (takeAll requests doc).1).Nodup ∧
    (∀ key field, (key, .ok field) ∈ (takeAll requests doc).1 → doc.Holds key field) ∧
    (takeAll requests doc).2 = doc.without (takenKeys (takeAll requests doc).1) := by
  induction requests generalizing doc with
  | nil =>
    refine ⟨.nil, ?_, (without_nil doc).symm⟩
    intro key field member
    cases member
  | cons request requests ih =>
    obtain ⟨kind, key⟩ := request
    rw [takeAll]
    rcases kind.found_or_refused doc key with ⟨field, found⟩ | ⟨error, refused⟩
    · -- later takes see a document without this key
      obtain ⟨nodup, held, after⟩ := ih (doc.without [key])
      rw [found.taken]
      refine ⟨?_, ?_, ?_⟩
      · apply List.nodup_cons.mpr
        refine ⟨?_, nodup⟩
        intro again
        obtain ⟨later, member⟩ := mem_takenKeys again
        exact (held key later member).of_without.1 List.mem_cons_self
      · intro other value member
        rcases List.mem_cons.mp member with first | later
        · cases first
          obtain ⟨map, v, isObject, present, readable⟩ := found.held
          exact ⟨map, v, kind, isObject, present, readable⟩
        · exact (held other value later).of_without.2
      · exact after.trans (without_without [key] _ doc)
    · obtain ⟨nodup, held, after⟩ := ih doc
      rw [refused.kept]
      refine ⟨nodup, ?_, after⟩
      intro other value member
      rcases List.mem_cons.mp member with first | later
      · cases first
      · exact held other value later

/-- A taker returns a field exactly if the root is an object that holds it readable, and then
removes just that field; otherwise it fails in its check, with the document as it was. Where
there is a getter it replies the same. So a sequence of takes returns each field at most once
and loses none. -/
theorem takes_atomic (doc : SecretJson) :
    (∀ (kind : Kind) (key : String) field after, kind.take key doc = .ok field after ↔
      ∃ map v, doc = .object map ∧ map.lookup key = some v ∧ kind.read v = some field ∧
        after = .object (map.filter fun entry => entry.1 ≠ key)) ∧
    (∀ (kind : Kind) (key : String) error after, kind.take key doc = .error error after →
      after = doc ∧ doc.ensureTakeable key kind.fits = .error error) ∧
    (∀ (kind : Kind) (key : String) getter, kind.getter = some getter →
      (∀ field, getter doc key = .ok field ↔ ∃ after, kind.take key doc = .ok field after) ∧
      ∀ error, getter doc key = .error error ↔ ∃ after, kind.take key doc = .error error after) ∧
    ∀ requests,
      (takenKeys (takeAll requests doc).1).Nodup ∧
      (∀ key field, (key, .ok field) ∈ (takeAll requests doc).1 → doc.Holds key field) ∧
      (takeAll requests doc).2 = doc.without (takenKeys (takeAll requests doc).1) := by
  refine ⟨?_, ?_, ?_, fun requests => takeAll_spec requests doc⟩
  · intro kind key field after
    rcases kind.found_or_refused doc key with ⟨value, found⟩ | ⟨error, refused⟩
    · obtain ⟨map, v, rfl, present, readable⟩ := found.held
      have removed : without [key] (.object map) =
          .object (map.filter fun entry => entry.1 ≠ key) := by
        simp only [without, List.mem_singleton]
      rw [found.taken, removed]
      constructor
      · intro taken
        cases taken
        exact ⟨map, v, rfl, present, readable, rfl⟩
      · rintro ⟨map', v', same, present', readable', rfl⟩
        cases same
        rw [present] at present'
        cases present'
        rw [readable] at readable'
        cases readable'
        rfl
    · rw [refused.kept]
      constructor
      · intro taken
        cases taken
      · rintro ⟨map, v, rfl, present, readable, -⟩
        have fit : kind.fits v = true := by rw [kind.fits_eq, readable]; rfl
        have checked := refused.checked
        rw [ensureTakeable_ok present fit] at checked
        cases checked
  · intro kind key error after failed
    rcases kind.found_or_refused doc key with ⟨value, found⟩ | ⟨reason, refused⟩
    · rw [found.taken] at failed
      cases failed
    · rw [refused.kept] at failed
      cases failed
      exact ⟨rfl, refused.checked⟩
  · intro kind key getter has
    rcases kind.found_or_refused doc key with ⟨value, found⟩ | ⟨reason, refused⟩
    · rw [found.got getter has, found.taken]
      simp
    · rw [refused.got getter has, refused.kept]
      simp

end Lithium.Secrets
