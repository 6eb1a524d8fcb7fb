/-! Charged values.

A place for a value that is to be transferred. It is either charged with one or
empty, and an empty place transfers nothing. -/
namespace GuestMachine.Register

structure Charged (α : Type) where
  value? : Option α := none
deriving DecidableEq

namespace Charged
variable {α : Type}

def empty : Charged α := {}

def charge (_ : Charged α) (value : α) : Charged α := ⟨some value⟩

def discharge (_ : Charged α) : Charged α := empty

def isCharged (c : Charged α) : Bool := c.value?.isSome

/-- Changes a value that is there; an empty place stays empty. -/
def modify (c : Charged α) (f : α → α) : Charged α := ⟨c.value?.map f⟩

/-- Changes the value, after charging an empty place with `zero`. -/
def update (c : Charged α) (zero : α) (f : α → α) : Charged α := ⟨some (f (c.value?.getD zero))⟩

/-- The value there was, and the place emptied. -/
def take (c : Charged α) : Option α × Charged α := (c.value?, empty)

end Charged

end GuestMachine.Register
