import GuestMachine.Register.Frame

/-! Register values as words.

The value of a group is a list of numbers, one for each register of the group in
order; a segment counts for four and a table for two. Reading the numbers of a value
gives the value back. A part of a group is a few of its numbers that stand side by
side, and can be seen and replaced in a frame by itself. -/
namespace GuestMachine.Register

def Segment.words (s : Segment) : List Nat :=
  [s.selector.toNat, s.access.toNat, s.limit.toNat, s.base.toNat]

def Table.words (t : Table) : List Nat := [t.limit.toNat, t.base.toNat]

namespace Group

def words : (g : Group) → g.Value → List Nat
  | general, (v : General) => [v.ax.toNat, v.cx.toNat, v.dx.toNat, v.bx.toNat]
  | index, (v : Index) => [v.bp.toNat, v.si.toNat, v.di.toNat]
  | stack, (v : UInt64) => [v.toNat]
  | instruction, (v : Instruction) => [v.ip.toNat, v.length.toNat]
  | flags, (v : UInt64) => [v.toNat]
  | dataSegments, (v : SegmentPair) => v.first.words ++ v.second.words
  | extraSegments, (v : SegmentPair) => v.first.words ++ v.second.words
  | codeSegments, (v : SegmentPair) => v.first.words ++ v.second.words
  | task, (v : Segment) => v.words
  | localTable, (v : Segment) => v.words
  | globalTable, (v : Table) => v.words
  | interruptTable, (v : Table) => v.words
  | control, (v : Control) => [v.cr0.toNat, v.cr2.toNat, v.cr3.toNat, v.cr4.toNat]
  | debug, (v : UInt64) => [v.toNat]
  | sysenter, (v : Sysenter) => [v.cs.toNat, v.sp.toNat, v.ip.toNat]
  | qualification, (v : Qualification) => [v.primary.toNat, v.secondary.toNat]
  | execution, (v : Execution) => [v.primary.toNat, v.secondary.toNat]
  | injection, (v : Injection) => [v.info.toNat, v.error.toNat]
  | activity, (v : Activity) => [v.interruptibility.toNat, v.activity.toNat]
  | timestamp, (v : Timestamp) => [v.value.toNat, v.offset.toNat]
  | efer, (v : UInt64) => [v.toNat]
  | pagePointers, (v : Vector UInt64 4) => v.toList.map UInt64.toNat
  | extended, (v : Vector UInt64 8) => v.toList.map UInt64.toNat
  | syscall, (v : Syscall) =>
    [v.star.toNat, v.lstar.toNat, v.cstar.toNat, v.fmask.toNat, v.kernelGsBase.toNat]
  | priority, (v : Priority) => [v.priority.toNat, v.threshold.toNat]

def pairOfWords? : List Nat → Option SegmentPair
  | [a, b, c, d, a', b', c', d'] =>
    some ⟨⟨a.toUInt16, b.toUInt16, c.toUInt32, d.toUInt64⟩,
      ⟨a'.toUInt16, b'.toUInt16, c'.toUInt32, d'.toUInt64⟩⟩
  | _ => none

def segmentOfWords? : List Nat → Option Segment
  | [a, b, c, d] => some ⟨a.toUInt16, b.toUInt16, c.toUInt32, d.toUInt64⟩
  | _ => none

def tableOfWords? : List Nat → Option Table
  | [a, b] => some ⟨a.toUInt32, b.toUInt64⟩
  | _ => none

def wordOfWords? : List Nat → Option UInt64
  | [a] => some a.toUInt64
  | _ => none

/-- The value with these numbers, if there are as many as the group has registers. -/
def ofWords? : (g : Group) → List Nat → Option g.Value
  | general, [a, b, c, d] => some (⟨a.toUInt64, b.toUInt64, c.toUInt64, d.toUInt64⟩ : General)
  | index, [a, b, c] => some (⟨a.toUInt64, b.toUInt64, c.toUInt64⟩ : Index)
  | instruction, [a, b] => some (⟨a.toUInt64, b.toUInt64⟩ : Instruction)
  | control, [a, b, c, d] => some (⟨a.toUInt64, b.toUInt64, c.toUInt64, d.toUInt64⟩ : Control)
  | sysenter, [a, b, c] => some (⟨a.toUInt64, b.toUInt64, c.toUInt64⟩ : Sysenter)
  | qualification, [a, b] => some (⟨a.toUInt64, b.toUInt64⟩ : Qualification)
  | execution, [a, b] => some (⟨a.toUInt32, b.toUInt32⟩ : Execution)
  | injection, [a, b] => some (⟨a.toUInt32, b.toUInt32⟩ : Injection)
  | activity, [a, b] => some (⟨a.toUInt32, b.toUInt32⟩ : Activity)
  | timestamp, [a, b] => some (⟨a.toUInt64, b.toUInt64⟩ : Timestamp)
  | pagePointers, [a, b, c, d] =>
    some (#v[a.toUInt64, b.toUInt64, c.toUInt64, d.toUInt64] : Vector UInt64 4)
  | extended, [a, b, c, d, e, f, g, h] =>
    some (#v[a.toUInt64, b.toUInt64, c.toUInt64, d.toUInt64, e.toUInt64, f.toUInt64, g.toUInt64,
      h.toUInt64] : Vector UInt64 8)
  | syscall, [a, b, c, d, e] =>
    some (⟨a.toUInt64, b.toUInt64, c.toUInt64, d.toUInt64, e.toUInt64⟩ : Syscall)
  | priority, [a, b] => some (⟨a.toUInt32, b.toUInt32⟩ : Priority)
  | stack, ws => wordOfWords? ws
  | flags, ws => wordOfWords? ws
  | debug, ws => wordOfWords? ws
  | efer, ws => wordOfWords? ws
  | dataSegments, ws => pairOfWords? ws
  | extraSegments, ws => pairOfWords? ws
  | codeSegments, ws => pairOfWords? ws
  | task, ws => segmentOfWords? ws
  | localTable, ws => segmentOfWords? ws
  | globalTable, ws => tableOfWords? ws
  | interruptTable, ws => tableOfWords? ws
  | _, _ => none

end Group

/-- Some numbers of a group that stand side by side. -/
structure Part where
  group : Group
  first : Nat
  count : Nat

namespace Part

def words (p : Part) (r : Registers) : List Nat :=
  ((p.group.words (p.group.read r)).drop p.first).take p.count

/-- The registers with the numbers of a part replaced, if there are as many. -/
def replace? (p : Part) (new : List Nat) (r : Registers) : Option Registers :=
  let old := p.group.words (p.group.read r)
  if new.length ≠ p.count then none
  else
    (p.group.ofWords? (old.take p.first ++ new ++ old.drop (p.first + p.count))).map fun v =>
      p.group.write v r

end Part

end GuestMachine.Register
