import GuestMachine.Register.Mask

/-! Register groups.

The registers of a guest move between it and its exit handler in groups. A group
has a bit in the transfer mask, a label and a type of values. The floating point
group is not among them: its bit is `fpuBit`, and its value never travels in a
frame (`Register/Fpu.lean`). -/
namespace GuestMachine.Register

/-! ### Values -/

/-- A segment register with the hidden part of its descriptor. -/
structure Segment where
  selector : UInt16 := 0
  access : UInt16 := 0
  limit : UInt32 := 0
  base : UInt64 := 0
deriving DecidableEq, Inhabited

/-- A descriptor table register. -/
structure Table where
  limit : UInt32 := 0
  base : UInt64 := 0
deriving DecidableEq, Inhabited

structure General where
  ax : UInt64 := 0
  cx : UInt64 := 0
  dx : UInt64 := 0
  bx : UInt64 := 0
deriving DecidableEq, Inhabited

structure Index where
  bp : UInt64 := 0
  si : UInt64 := 0
  di : UInt64 := 0
deriving DecidableEq, Inhabited

/-- The instruction pointer, and the length of the instruction that exited. -/
structure Instruction where
  ip : UInt64 := 0
  length : UInt64 := 0
deriving DecidableEq, Inhabited

structure SegmentPair where
  first : Segment := {}
  second : Segment := {}
deriving DecidableEq, Inhabited

structure Control where
  cr0 : UInt64 := 0
  cr2 : UInt64 := 0
  cr3 : UInt64 := 0
  cr4 : UInt64 := 0
deriving DecidableEq, Inhabited

structure Sysenter where
  cs : UInt64 := 0
  sp : UInt64 := 0
  ip : UInt64 := 0
deriving DecidableEq, Inhabited

/-- Exit qualification. -/
structure Qualification where
  primary : UInt64 := 0
  secondary : UInt64 := 0
deriving DecidableEq, Inhabited

/-- Execution controls. -/
structure Execution where
  primary : UInt32 := 0
  secondary : UInt32 := 0
deriving DecidableEq, Inhabited

/-- An event to inject. -/
structure Injection where
  info : UInt32 := 0
  error : UInt32 := 0
deriving DecidableEq, Inhabited

/-- Interruptibility and activity. -/
structure Activity where
  interruptibility : UInt32 := 0
  activity : UInt32 := 0
deriving DecidableEq, Inhabited

structure Timestamp where
  value : UInt64 := 0
  offset : UInt64 := 0
deriving DecidableEq, Inhabited

structure Syscall where
  star : UInt64 := 0
  lstar : UInt64 := 0
  cstar : UInt64 := 0
  fmask : UInt64 := 0
  kernelGsBase : UInt64 := 0
deriving DecidableEq, Inhabited

/-- Task priority and its threshold. -/
structure Priority where
  priority : UInt32 := 0
  threshold : UInt32 := 0
deriving DecidableEq, Inhabited

/-! ### Groups -/

inductive Group where
  | general | index | stack | instruction | flags
  | dataSegments | extraSegments | codeSegments
  | task | localTable | globalTable | interruptTable
  | control | debug | sysenter | qualification | execution | injection | activity
  | timestamp | efer | pagePointers | extended | syscall | priority
deriving DecidableEq

namespace Group

def Value : Group → Type
  | general => General
  | index => Index
  | stack => UInt64
  | instruction => Instruction
  | flags => UInt64
  | dataSegments => SegmentPair
  | extraSegments => SegmentPair
  | codeSegments => SegmentPair
  | task => Segment
  | localTable => Segment
  | globalTable => Table
  | interruptTable => Table
  | control => Control
  | debug => UInt64
  | sysenter => Sysenter
  | qualification => Qualification
  | execution => Execution
  | injection => Injection
  | activity => Activity
  | timestamp => Timestamp
  | efer => UInt64
  | pagePointers => Vector UInt64 4
  | extended => Vector UInt64 8
  | syscall => Syscall
  | priority => Priority

/-- All registers of the group zero. -/
def zero : (g : Group) → g.Value
  | general => ({} : General)
  | index => ({} : Index)
  | stack => (0 : UInt64)
  | instruction => ({} : Instruction)
  | flags => (0 : UInt64)
  | dataSegments | extraSegments | codeSegments => ({} : SegmentPair)
  | task | localTable => ({} : Segment)
  | globalTable | interruptTable => ({} : Table)
  | control => ({} : Control)
  | debug => (0 : UInt64)
  | sysenter => ({} : Sysenter)
  | qualification => ({} : Qualification)
  | execution => ({} : Execution)
  | injection => ({} : Injection)
  | activity => ({} : Activity)
  | timestamp => ({} : Timestamp)
  | efer => (0 : UInt64)
  | pagePointers => (Vector.replicate 4 0 : Vector UInt64 4)
  | extended => (Vector.replicate 8 0 : Vector UInt64 8)
  | syscall => ({} : Syscall)
  | priority => ({} : Priority)

instance decEqValue : (g : Group) → DecidableEq g.Value
  | general => inferInstanceAs (DecidableEq General)
  | index => inferInstanceAs (DecidableEq Index)
  | stack => inferInstanceAs (DecidableEq UInt64)
  | instruction => inferInstanceAs (DecidableEq Instruction)
  | flags => inferInstanceAs (DecidableEq UInt64)
  | dataSegments => inferInstanceAs (DecidableEq SegmentPair)
  | extraSegments => inferInstanceAs (DecidableEq SegmentPair)
  | codeSegments => inferInstanceAs (DecidableEq SegmentPair)
  | task => inferInstanceAs (DecidableEq Segment)
  | localTable => inferInstanceAs (DecidableEq Segment)
  | globalTable => inferInstanceAs (DecidableEq Table)
  | interruptTable => inferInstanceAs (DecidableEq Table)
  | control => inferInstanceAs (DecidableEq Control)
  | debug => inferInstanceAs (DecidableEq UInt64)
  | sysenter => inferInstanceAs (DecidableEq Sysenter)
  | qualification => inferInstanceAs (DecidableEq Qualification)
  | execution => inferInstanceAs (DecidableEq Execution)
  | injection => inferInstanceAs (DecidableEq Injection)
  | activity => inferInstanceAs (DecidableEq Activity)
  | timestamp => inferInstanceAs (DecidableEq Timestamp)
  | efer => inferInstanceAs (DecidableEq UInt64)
  | pagePointers => inferInstanceAs (DecidableEq (Vector UInt64 4))
  | extended => inferInstanceAs (DecidableEq (Vector UInt64 8))
  | syscall => inferInstanceAs (DecidableEq Syscall)
  | priority => inferInstanceAs (DecidableEq Priority)

/-- Every group, in the order of their bits. -/
def all : List Group :=
  [general, index, stack, instruction, flags, dataSegments, extraSegments, codeSegments,
    task, localTable, globalTable, interruptTable, control, debug, sysenter, qualification,
    execution, injection, activity, timestamp, efer, pagePointers, extended, syscall, priority]

def bit : Group → Nat
  | general => 0
  | index => 1
  | stack => 2
  | instruction => 3
  | flags => 4
  | dataSegments => 5
  | extraSegments => 6
  | codeSegments => 7
  | task => 8
  | localTable => 9
  | globalTable => 10
  | interruptTable => 11
  | control => 12
  | debug => 13
  | sysenter => 14
  | qualification => 15
  | execution => 16
  | injection => 17
  | activity => 18
  | timestamp => 19
  | efer => 20
  | pagePointers => 21
  | extended => 22
  | syscall => 23
  | priority => 24

def label : Group → String
  | general => "ACDB"
  | index => "EBSD"
  | stack => "ESP"
  | instruction => "EIP"
  | flags => "EFL"
  | dataSegments => "ESDS"
  | extraSegments => "FSGS"
  | codeSegments => "CSSS"
  | task => "TR"
  | localTable => "LDTR"
  | globalTable => "GDTR"
  | interruptTable => "IDTR"
  | control => "CR"
  | debug => "DR"
  | sysenter => "SYSENTER"
  | qualification => "QUAL"
  | execution => "CTRL"
  | injection => "INJ"
  | activity => "STA"
  | timestamp => "TSC"
  | efer => "EFER"
  | pagePointers => "PDPTE"
  | extended => "R8_R15"
  | syscall => "SYSCALL_SWAPGS"
  | priority => "TPR"

def mask (g : Group) : Mask := .single g.bit

theorem mem_all (g : Group) : g ∈ all := by
  cases g <;> decide

theorem bit_lt (g : Group) : g.bit < 25 := by
  cases g <;> decide

/-- The list has every group at the place of its bit. -/
theorem getElem?_bit (g : Group) : all[g.bit]? = some g := by
  cases g <;> rfl

theorem bit_injective {g h : Group} (e : g.bit = h.bit) : g = h :=
  Option.some.inj ((getElem?_bit g).symm.trans (e ▸ getElem?_bit h))

end Group

/-! ### Masks of groups -/

/-- The bit of the floating point group. -/
def fpuBit : Nat := 31

namespace Mask

/-- The bits of a list of groups. -/
def ofGroups (gs : List Group) : Mask :=
  gs.foldl (fun m g => m.union g.mask) empty

/-- The floating point group alone. -/
def fpu : Mask := .single fpuBit

/-- Every group, the floating point group included. -/
def full : Mask := (ofGroups Group.all).union fpu

/-- What names a group in a mask; other bits are dropped. -/
def known (m : Mask) : Mask := m.inter full

/-- The labels of the groups in the order of their bits, then the bits that name
no group as one number. -/
def text (m : Mask) : String :=
  let groups := (Group.all.filter fun g => m.has g.bit).map Group.label
  let fpuLabel := if m.has fpuBit then ["FPU"] else []
  let rest := m.diff full
  let unknown := if rest.isEmpty then [] else [Text.hex rest.toNat]
  let parts := groups ++ fpuLabel ++ unknown
  "Mtd(" ++ (if parts.isEmpty then Text.hex 0 else " | ".intercalate parts) ++ ")"

end Mask

end GuestMachine.Register
