import GuestMachine.Text.Blank

/-! What is logged.

A setting names the categories to log in full; everything else is logged from warnings
on. Without a setting no category is. -/
namespace GuestMachine.Log

structure Categories where
  vcpu : Bool := false
  memory : Bool := false
deriving DecidableEq

namespace Categories

/-- Letters of ASCII are all that matters to a category's name, whatever the case. -/
def lower (cs : List Char) : List Char := cs.map Char.toLower

def split (cs : List Char) : List (List Char) :=
  cs.foldr (fun c parts =>
    if c = ',' then [] :: parts
    else match parts with
      | [] => [[c]]
      | part :: rest => (c :: part) :: rest) [[]]

/-- Whether a name is among those of a list separated by commas. -/
def names (cs : List Char) (name : String) : Bool :=
  (split (lower cs)).any fun part => Text.trim part == name.toList

/-- Reads a setting: `1` and `all` stand for every category. -/
def parse : Option String → Categories
  | none => {}
  | some value =>
    let cs := value.toList
    if cs = ['1'] ∨ lower cs = ['a', 'l', 'l'] then {vcpu := true, memory := true}
    else {vcpu := names cs "vcpu", memory := names cs "memory"}

/-- Some category is logged in full. -/
def any (c : Categories) : Bool := c.vcpu || c.memory

/-- The beginnings of the targets that are logged in full. -/
def targets (c : Categories) : List String :=
  (if c.vcpu then ["vmexec::vcpu", "vmexec::backend"] else [])
    ++ (if c.memory then ["vmexec::memory"] else [])

end Categories

inductive Level where
  | warn
  | trace
deriving DecidableEq

/-- The most verbose level that is logged for a target. -/
def Categories.level (c : Categories) (target : String) : Level :=
  if c.targets.any fun beginning => beginning.toList.isPrefixOf target.toList then .trace else .warn

end GuestMachine.Log
