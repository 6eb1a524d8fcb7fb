import GuestMachine.Register.Edit
import GuestMachine.Vcpu.Handler

/-! Handlers written as tables.

A scripted handler has a list of rules. The first rule that matches the reason of
an exit, and has not been used up, gives the actions to take; with no such rule the
handler does nothing. It logs every call with what it saw. -/
namespace GuestMachine.Script
open Register

inductive Action where
  /-- A call to run or pause, on its own vCPU or others; the result of one that can
  fail is noted. -/
  | call (c : Call)
  | edit (e : Edit)
  /-- Notes the state. -/
  | dump
  /-- Stops, and fails the exit. -/
  | fail (cause : String)

inductive Note where
  | result (r : Except Error Unit)
  | glimpse (g : Glimpse)
  | state (s : State)

structure Rule where
  /-- `none` matches every reason. -/
  reason : Option Exit.Reason
  actions : List Action
  /-- How often the rule may be used. -/
  times : Option Nat

structure Record where
  reason : Exit.Reason
  /-- What is charged when the handler ends. -/
  charged : Mask
  notes : List Note

structure Memory where
  /-- How often each rule has been used. -/
  uses : Nat → Nat := fun _ => 0
  /-- The calls that have ended, oldest first. -/
  log : List Record := []

def Rule.matches (rule : Rule) (reason : Exit.Reason) (uses : Nat) : Bool :=
  (match rule.reason with
    | none => true
    | some r => r == reason)
  && (match rule.times with
    | none => true
    | some n => decide (uses < n))

def Reply.notes : Reply → List Note
  | .done => []
  | .result r => [.result r]
  | .glimpse g => [.glimpse g]

/-- Takes the actions in order. -/
def play (finish : State → List Note → Option Failure → Program Memory) :
    List Action → State → List Note → Program Memory
  | [], s, notes => finish s notes none
  | .call c :: rest, s, notes =>
    .call c fun r => play finish rest s (notes ++ Reply.notes r)
  | .edit e :: rest, s, notes => play finish rest (e.apply s) notes
  | .dump :: rest, s, notes => play finish rest s (notes ++ [.state s])
  | .fail cause :: _, s, notes => finish s notes (some (.error cause))

def find (rules : List (Nat × Rule)) (m : Memory) (reason : Exit.Reason) : Option (Nat × Rule) :=
  rules.find? fun (i, rule) => rule.matches reason (m.uses i)

def handle (rules : List Rule) (m : Memory) (s : State) : Program Memory :=
  let (m', actions) := match find ((List.range rules.length).zip rules) m s.reason with
    | some (i, rule) =>
      ({m with uses := fun j => if j = i then m.uses i + 1 else m.uses j}, rule.actions)
    | none => (m, [])
  let finish := fun (s' : State) notes failure =>
    Program.done {m' with log := m'.log ++ [⟨s.reason, s'.charged, notes⟩]} s' failure
  play finish actions s []

/-- The first entry that matches a reason decides; a reason without one asks for
every group. -/
def interest (table : List (Option Exit.Reason × Option Mask)) : Exit.Interest := fun r =>
  match table.find? fun (reason, _) => reason.isNone || reason == some r with
  | some (_, mask) => mask
  | none => some .empty

def handler (table : Option (List (Option Exit.Reason × Option Mask))) (rules : List Rule) :
    Handler Memory where
  interest := match table with
    | some t => interest t
    | none => Exit.everything
  handle := handle rules

end GuestMachine.Script
