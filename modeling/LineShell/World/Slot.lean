import LineShell.Bytes

namespace LineShell

inductive Slot where
  | input
  | output
  | error
  deriving DecidableEq, Repr

namespace Slot

def all : List Slot := [input, output, error]

def ofInt? : Int → Option Slot
  | 0 => some input
  | 1 => some output
  | 2 => some error
  | _ => none

def name : Slot → Bytes
  | input => ascii "stdin"
  | output => ascii "stdout"
  | error => ascii "stderr"

def nameOfInt (n : Int) : Bytes :=
  match ofInt? n with
  | some slot => slot.name
  | none => ascii "Slot(" ++ decimalInt n ++ ascii ")"

end Slot

structure Triple (α : Type) where
  input : α
  output : α
  error : α
  deriving DecidableEq, Repr

namespace Triple

def get (t : Triple α) : Slot → α
  | .input => t.input
  | .output => t.output
  | .error => t.error

def set (t : Triple α) (slot : Slot) (a : α) : Triple α :=
  match slot with
  | .input => { t with input := a }
  | .output => { t with output := a }
  | .error => { t with error := a }

def replicate (a : α) : Triple α := ⟨a, a, a⟩

def toList (t : Triple α) : List α := [t.input, t.output, t.error]

def map (f : α → β) (t : Triple α) : Triple β := ⟨f t.input, f t.output, f t.error⟩

def orElse (t fallback : Triple (Option α)) : Triple (Option α) :=
  ⟨t.input.or fallback.input, t.output.or fallback.output, t.error.or fallback.error⟩

@[simp] theorem get_set_self (t : Triple α) (slot : Slot) (a : α) : (t.set slot a).get slot = a := by
  cases slot <;> rfl

theorem get_set_of_ne (t : Triple α) {slot other : Slot} (a : α) (different : other ≠ slot) :
    (t.set slot a).get other = t.get other := by
  cases slot <;> cases other <;> first | rfl | exact absurd rfl different

end Triple
end LineShell
