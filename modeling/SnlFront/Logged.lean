import SnlFront.Fault

/-!
# Computations that take notes

A computation that takes notes comes to a list of notes and to a value, unless it breaks off with a
fault. The notes taken before a fault are kept.

## Main definitions

* `Logged`: the notes and the value of a computation.
* `Logged.note`, `Logged.fail`: take a note; break off.

## Main statements

* `log_bind_of_ok`, `value_bind_of_ok`: notes of steps that follow each other are concatenated.
* `bind_of_error`: after a fault nothing more happens.
-/

namespace SnlFront

/-- The notes and the value of a computation. -/
structure Logged (ω α : Type) where
  log : List ω
  value : Except Fault α

namespace Logged

variable {ω α β : Type}

/-- A value without notes. -/
def pure (a : α) : Logged ω α := ⟨[], .ok a⟩

/-- One computation after another; the second does not start after a fault. -/
def bind (x : Logged ω α) (f : α → Logged ω β) : Logged ω β :=
  match x.value with
  | .ok a =>
    let next := f a
    ⟨x.log ++ next.log, next.value⟩
  | .error fault => ⟨x.log, .error fault⟩

instance : Monad (Logged ω) where
  pure := Logged.pure
  bind := Logged.bind

/-- Take a note. -/
def note (n : ω) : Logged ω Unit := ⟨[n], .ok ()⟩

/-- Take a note if a condition fails. -/
def demand (condition : Bool) (n : ω) : Logged ω Unit := if condition then pure () else note n

/-- Break off. -/
def fail (fault : Fault) : Logged ω α := ⟨[], .error fault⟩

/-- A value or a fault, without notes. -/
def ofExcept (x : Except Fault α) : Logged ω α := ⟨[], x⟩

@[simp] theorem pure_eq (a : α) : (Pure.pure a : Logged ω α) = ⟨[], .ok a⟩ := rfl

/-- Without a fault the notes of the second computation follow those of the first. -/
theorem log_bind_of_ok {x : Logged ω α} {a : α} (h : x.value = .ok a) (f : α → Logged ω β) :
    (x >>= f).log = x.log ++ (f a).log := by
  change (Logged.bind x f).log = _
  rw [Logged.bind, h]

theorem value_bind_of_ok {x : Logged ω α} {a : α} (h : x.value = .ok a) (f : α → Logged ω β) :
    (x >>= f).value = (f a).value := by
  change (Logged.bind x f).value = _
  rw [Logged.bind, h]

/-- After a fault nothing more is noted, and the fault is the result. -/
theorem bind_of_error {x : Logged ω α} {fault : Fault} (h : x.value = .error fault)
    (f : α → Logged ω β) : (x >>= f) = ⟨x.log, .error fault⟩ := by
  change Logged.bind x f = _
  rw [Logged.bind, h]

theorem eq_mk_of_ok {x : Logged ω α} {a : α} (h : x.value = .ok a) : x = ⟨x.log, .ok a⟩ := by
  rw [← h]

theorem mk_bind (log : List ω) (a : α) (f : α → Logged ω β) :
    ((⟨log, .ok a⟩ : Logged ω α) >>= f) = ⟨log ++ (f a).log, (f a).value⟩ := rfl

end Logged

end SnlFront
