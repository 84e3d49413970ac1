import Mathlib.Data.List.Basic

/-! Programs as trees of calls to their environment. A program stops with a
result or an error, or makes one call and goes on with the reply. Everything
the environment may do, including a stop between two calls, is left to the
semantics of the calls. -/
namespace Lithium.Effects

/-- The calls a program can make and the type of the reply to each. -/
structure Signature where
  Op : Type
  Reply : Op → Type

inductive Program (S : Signature) (ε α : Type) where
  | done (result : Except ε α)
  | call (op : S.Op) (next : S.Reply op → Program S ε α)

namespace Program
variable {S : Signature} {ε α β γ : Type}

def bind : Program S ε α → (α → Program S ε β) → Program S ε β
  | .done (.ok value), rest => rest value
  | .done (.error e), _ => .done (.error e)
  | .call op next, rest => .call op fun reply => (next reply).bind rest

instance : Monad (Program S ε) where
  pure value := .done (.ok value)
  bind := bind

def perform (op : S.Op) : Program S ε (S.Reply op) := .call op fun reply => .done (.ok reply)

/-- Run a program and hand its result, success or error, to the caller. -/
def attempt : Program S ε α → Program S ε (Except ε α)
  | .done result => .done (.ok result)
  | .call op next => .call op fun reply => (next reply).attempt

instance : MonadExceptOf ε (Program S ε) where
  throw e := .done (.error e)
  tryCatch program handler := program.attempt.bind fun
    | .ok value => .done (.ok value)
    | .error e => handler e

/-- Run `program`, then `release` whatever the outcome, then hand it on: the
shape of a lock guard that is dropped at the end of its scope. -/
def guarded (program : Program S ε α) (release : Program S ε Unit) : Program S ε α :=
  program.attempt.bind fun result => release.bind fun _ => .done result

/-- Every call the program can ever make satisfies `allowed`. -/
def Calls (allowed : S.Op → Prop) : Program S ε α → Prop
  | .done _ => True
  | .call op next => allowed op ∧ ∀ reply, (next reply).Calls allowed

variable {allowed other : S.Op → Prop}

@[simp] theorem pure_eq (value : α) : (pure value : Program S ε α) = .done (.ok value) := rfl

@[simp] theorem bind_eq (program : Program S ε α) (rest : α → Program S ε β) :
    program >>= rest = program.bind rest := rfl

@[simp] theorem throw_eq (e : ε) : (throw e : Program S ε α) = .done (.error e) := rfl

@[simp] theorem done_ok_bind (value : α) (rest : α → Program S ε β) :
    (done (.ok value) : Program S ε α).bind rest = rest value := rfl

@[simp] theorem call_bind (op : S.Op) (next : S.Reply op → Program S ε α)
    (rest : α → Program S ε β) :
    (call op next).bind rest = .call op fun reply => (next reply).bind rest := rfl

@[simp] theorem perform_bind (op : S.Op) (rest : S.Reply op → Program S ε β) :
    (perform op).bind rest = .call op rest := rfl

theorem Calls.mono {program : Program S ε α} (calls : program.Calls allowed)
    (more : ∀ op, allowed op → other op) : program.Calls other := by
  induction program with
  | done result => trivial
  | call op next ih => exact ⟨more op calls.1, fun reply => ih reply (calls.2 reply)⟩

theorem Calls.bind {program : Program S ε α} {rest : α → Program S ε β}
    (first : program.Calls allowed) (second : ∀ value, (rest value).Calls allowed) :
    (program.bind rest).Calls allowed := by
  induction program with
  | done result =>
    cases result with
    | ok value => exact second value
    | error e => trivial
  | call op next ih => exact ⟨first.1, fun reply => ih reply (first.2 reply)⟩

theorem Calls.attempt {program : Program S ε α} (calls : program.Calls allowed) :
    program.attempt.Calls allowed := by
  induction program with
  | done result => trivial
  | call op next ih => exact ⟨calls.1, fun reply => ih reply (calls.2 reply)⟩

theorem Calls.done (result : Except ε α) : (.done result : Program S ε α).Calls allowed := trivial

theorem Calls.ite {condition : Prop} [Decidable condition] {yes no : Program S ε α}
    (first : yes.Calls allowed) (second : no.Calls allowed) :
    (if condition then yes else no).Calls allowed := by
  split
  · exact first
  · exact second

theorem Calls.perform {op : S.Op} (ok : allowed op) :
    (Program.perform op : Program S ε _).Calls allowed := ⟨ok, fun _ => trivial⟩

/-- On every path the program makes at most so many of the calls that count. -/
def AtMost (counts : S.Op → Bool) : Program S ε α → Nat → Prop
  | .done _, _ => True
  | .call op next, n =>
    (counts op = true → 0 < n) ∧ ∀ reply, (next reply).AtMost counts (n - (counts op).toNat)

variable {counts : S.Op → Bool} {n m : Nat}

theorem AtMost.mono {program : Program S ε α} (few : program.AtMost counts n) (more : n ≤ m) :
    program.AtMost counts m := by
  induction program generalizing n m with
  | done result => trivial
  | call op next ih =>
    exact ⟨fun counted => Nat.lt_of_lt_of_le (few.1 counted) more,
      fun reply => ih reply (few.2 reply) (Nat.sub_le_sub_right more _)⟩

/-- What may still be made once a call is answered. -/
theorem AtMost.answered {op : S.Op} {next : S.Reply op → Program S ε α}
    (few : (Program.call op next).AtMost counts n) (reply : S.Reply op) :
    ∃ left, (next reply).AtMost counts left ∧ left + (counts op).toNat ≤ n := by
  have enough : (counts op).toNat ≤ n := by
    cases counted : counts op with
    | false => exact Nat.zero_le n
    | true => exact few.1 counted
  exact ⟨n - (counts op).toNat, few.2 reply, by omega⟩

theorem AtMost.attempt {program : Program S ε α} (few : program.AtMost counts n) :
    program.attempt.AtMost counts n := by
  induction program generalizing n with
  | done result => trivial
  | call op next ih => exact ⟨few.1, fun reply => ih reply (few.2 reply)⟩

theorem AtMost.bind {program : Program S ε α} {rest : α → Program S ε β}
    (first : program.AtMost counts n) (second : ∀ value, (rest value).AtMost counts m) :
    (program.bind rest).AtMost counts (n + m) := by
  induction program generalizing n with
  | done result =>
    cases result with
    | ok value => exact (second value).mono (Nat.le_add_left m n)
    | error e => trivial
  | call op next ih =>
    refine ⟨fun counted => Nat.add_pos_left (first.1 counted) m, fun reply => ?_⟩
    obtain ⟨left, few, spent⟩ := first.answered reply
    exact (ih reply few).mono (by omega)

theorem Calls.atMost {program : Program S ε α} (none : program.Calls fun op => counts op = false) :
    program.AtMost counts n := by
  induction program generalizing n with
  | done result => trivial
  | call op next ih =>
    exact ⟨fun counted => by simp [none.1] at counted, fun reply => ih reply (none.2 reply)⟩

theorem Calls.bind_atMost {program : Program S ε α} {rest : α → Program S ε β}
    (first : program.Calls fun op => counts op = false)
    (second : ∀ value, (rest value).AtMost counts n) : (program.bind rest).AtMost counts n :=
  ((Calls.atMost first : program.AtMost counts 0).bind second).mono (Nat.le_of_eq (Nat.zero_add n))

theorem AtMost.perform_bind {op : S.Op} {rest : S.Reply op → Program S ε β}
    (few : ∀ reply, (rest reply).AtMost counts n) :
    ((Program.perform op).bind rest).AtMost counts (n + 1) := by
  refine ⟨fun _ => Nat.succ_pos n, fun reply => (few reply).mono ?_⟩
  have := Bool.toNat_le (counts op)
  omega

end Program
end Lithium.Effects
