import GuestMachine.Register.Group

/-! The frame exchanged at an exit.

A frame holds registers side by side, with the mask of the groups that are valid
in it and the reason of the exit. The guest's own register file has the same form.
A vCPU reads and writes a frame group by group (`Group.read`, `Group.write`); the
hypervisor copies groups from one frame to another (`Group.copy`). -/
namespace GuestMachine.Register

structure Registers where
  ax : UInt64 := 0
  cx : UInt64 := 0
  dx : UInt64 := 0
  bx : UInt64 := 0
  bp : UInt64 := 0
  si : UInt64 := 0
  di : UInt64 := 0
  sp : UInt64 := 0
  ip : UInt64 := 0
  ipLength : UInt64 := 0
  flags : UInt64 := 0
  es : Segment := {}
  ds : Segment := {}
  fs : Segment := {}
  gs : Segment := {}
  cs : Segment := {}
  ss : Segment := {}
  tr : Segment := {}
  ldtr : Segment := {}
  gdtr : Table := {}
  idtr : Table := {}
  cr0 : UInt64 := 0
  cr2 : UInt64 := 0
  cr3 : UInt64 := 0
  cr4 : UInt64 := 0
  dr7 : UInt64 := 0
  sysenterCs : UInt64 := 0
  sysenterSp : UInt64 := 0
  sysenterIp : UInt64 := 0
  qualPrimary : UInt64 := 0
  qualSecondary : UInt64 := 0
  ctrlPrimary : UInt32 := 0
  ctrlSecondary : UInt32 := 0
  injectionInfo : UInt32 := 0
  injectionError : UInt32 := 0
  interruptibility : UInt32 := 0
  activity : UInt32 := 0
  tscValue : UInt64 := 0
  tscOffset : UInt64 := 0
  efer : UInt64 := 0
  pdpte : Vector UInt64 4 := Vector.replicate 4 0
  r8r15 : Vector UInt64 8 := Vector.replicate 8 0
  star : UInt64 := 0
  lstar : UInt64 := 0
  cstar : UInt64 := 0
  fmask : UInt64 := 0
  kernelGsBase : UInt64 := 0
  tpr : UInt32 := 0
  tprThreshold : UInt32 := 0
deriving DecidableEq

/-- The value of a group among the registers. -/
def Group.read : (g : Group) → Registers → g.Value
  | .general, r => (⟨r.ax, r.cx, r.dx, r.bx⟩ : General)
  | .index, r => (⟨r.bp, r.si, r.di⟩ : Index)
  | .stack, r => r.sp
  | .instruction, r => (⟨r.ip, r.ipLength⟩ : Instruction)
  | .flags, r => r.flags
  | .dataSegments, r => (⟨r.es, r.ds⟩ : SegmentPair)
  | .extraSegments, r => (⟨r.fs, r.gs⟩ : SegmentPair)
  | .codeSegments, r => (⟨r.cs, r.ss⟩ : SegmentPair)
  | .task, r => r.tr
  | .localTable, r => r.ldtr
  | .globalTable, r => r.gdtr
  | .interruptTable, r => r.idtr
  | .control, r => (⟨r.cr0, r.cr2, r.cr3, r.cr4⟩ : Control)
  | .debug, r => r.dr7
  | .sysenter, r => (⟨r.sysenterCs, r.sysenterSp, r.sysenterIp⟩ : Sysenter)
  | .qualification, r => (⟨r.qualPrimary, r.qualSecondary⟩ : Qualification)
  | .execution, r => (⟨r.ctrlPrimary, r.ctrlSecondary⟩ : Execution)
  | .injection, r => (⟨r.injectionInfo, r.injectionError⟩ : Injection)
  | .activity, r => (⟨r.interruptibility, r.activity⟩ : Activity)
  | .timestamp, r => (⟨r.tscValue, r.tscOffset⟩ : Timestamp)
  | .efer, r => r.efer
  | .pagePointers, r => r.pdpte
  | .extended, r => r.r8r15
  | .syscall, r => (⟨r.star, r.lstar, r.cstar, r.fmask, r.kernelGsBase⟩ : Syscall)
  | .priority, r => (⟨r.tpr, r.tprThreshold⟩ : Priority)

/-- The registers with a group's value put in its place. -/
def Group.write : (g : Group) → g.Value → Registers → Registers
  | .general, (v : General), r => {r with ax := v.ax, cx := v.cx, dx := v.dx, bx := v.bx}
  | .index, (v : Index), r => {r with bp := v.bp, si := v.si, di := v.di}
  | .stack, (v : UInt64), r => {r with sp := v}
  | .instruction, (v : Instruction), r => {r with ip := v.ip, ipLength := v.length}
  | .flags, (v : UInt64), r => {r with flags := v}
  | .dataSegments, (v : SegmentPair), r => {r with es := v.first, ds := v.second}
  | .extraSegments, (v : SegmentPair), r => {r with fs := v.first, gs := v.second}
  | .codeSegments, (v : SegmentPair), r => {r with cs := v.first, ss := v.second}
  | .task, (v : Segment), r => {r with tr := v}
  | .localTable, (v : Segment), r => {r with ldtr := v}
  | .globalTable, (v : Table), r => {r with gdtr := v}
  | .interruptTable, (v : Table), r => {r with idtr := v}
  | .control, (v : Control), r => {r with cr0 := v.cr0, cr2 := v.cr2, cr3 := v.cr3, cr4 := v.cr4}
  | .debug, (v : UInt64), r => {r with dr7 := v}
  | .sysenter, (v : Sysenter), r =>
    {r with sysenterCs := v.cs, sysenterSp := v.sp, sysenterIp := v.ip}
  | .qualification, (v : Qualification), r =>
    {r with qualPrimary := v.primary, qualSecondary := v.secondary}
  | .execution, (v : Execution), r => {r with ctrlPrimary := v.primary, ctrlSecondary := v.secondary}
  | .injection, (v : Injection), r => {r with injectionInfo := v.info, injectionError := v.error}
  | .activity, (v : Activity), r =>
    {r with interruptibility := v.interruptibility, activity := v.activity}
  | .timestamp, (v : Timestamp), r => {r with tscValue := v.value, tscOffset := v.offset}
  | .efer, (v : UInt64), r => {r with efer := v}
  | .pagePointers, (v : Vector UInt64 4), r => {r with pdpte := v}
  | .extended, (v : Vector UInt64 8), r => {r with r8r15 := v}
  | .syscall, (v : Syscall), r =>
    { r with
      star := v.star, lstar := v.lstar, cstar := v.cstar, fmask := v.fmask
      kernelGsBase := v.kernelGsBase }
  | .priority, (v : Priority), r => {r with tpr := v.priority, tprThreshold := v.threshold}

/-- The registers of a group taken over from `src`, register by register. -/
def Group.copy (src : Registers) : Group → Registers → Registers
  | .general, r => {r with ax := src.ax, cx := src.cx, dx := src.dx, bx := src.bx}
  | .index, r => {r with bp := src.bp, si := src.si, di := src.di}
  | .stack, r => {r with sp := src.sp}
  | .instruction, r => {r with ip := src.ip, ipLength := src.ipLength}
  | .flags, r => {r with flags := src.flags}
  | .dataSegments, r => {r with es := src.es, ds := src.ds}
  | .extraSegments, r => {r with fs := src.fs, gs := src.gs}
  | .codeSegments, r => {r with cs := src.cs, ss := src.ss}
  | .task, r => {r with tr := src.tr}
  | .localTable, r => {r with ldtr := src.ldtr}
  | .globalTable, r => {r with gdtr := src.gdtr}
  | .interruptTable, r => {r with idtr := src.idtr}
  | .control, r => {r with cr0 := src.cr0, cr2 := src.cr2, cr3 := src.cr3, cr4 := src.cr4}
  | .debug, r => {r with dr7 := src.dr7}
  | .sysenter, r =>
    {r with sysenterCs := src.sysenterCs, sysenterSp := src.sysenterSp, sysenterIp := src.sysenterIp}
  | .qualification, r => {r with qualPrimary := src.qualPrimary, qualSecondary := src.qualSecondary}
  | .execution, r => {r with ctrlPrimary := src.ctrlPrimary, ctrlSecondary := src.ctrlSecondary}
  | .injection, r => {r with injectionInfo := src.injectionInfo, injectionError := src.injectionError}
  | .activity, r => {r with interruptibility := src.interruptibility, activity := src.activity}
  | .timestamp, r => {r with tscValue := src.tscValue, tscOffset := src.tscOffset}
  | .efer, r => {r with efer := src.efer}
  | .pagePointers, r => {r with pdpte := src.pdpte}
  | .extended, r => {r with r8r15 := src.r8r15}
  | .syscall, r =>
    { r with
      star := src.star, lstar := src.lstar, cstar := src.cstar, fmask := src.fmask
      kernelGsBase := src.kernelGsBase }
  | .priority, r => {r with tpr := src.tpr, tprThreshold := src.tprThreshold}

structure Frame where
  mask : Mask := .empty
  reason : UInt32 := 0
  registers : Registers := {}
deriving DecidableEq

namespace Frame

/-- An empty frame for an exit: nothing in it is valid. -/
def forExit (reason : UInt32) : Frame := {reason}

/-- The answer that transfers nothing. -/
def cleared (f : Frame) : Frame := {f with mask := .empty}

/-- Takes over from `src` the groups of a mask. Mask and reason stay. -/
def copyGroups (f src : Frame) (m : Mask) : Frame :=
  {f with registers :=
    Group.all.foldl (fun r g => if m.has g.bit then g.copy src.registers r else r) f.registers}

end Frame

/-! ### Reading after writing -/

theorem read_write (g : Group) (v : g.Value) (r : Registers) : g.read (g.write v r) = v := by
  cases g <;> rfl

theorem read_write_of_ne {g h : Group} (v : h.Value) (r : Registers) (e : g ≠ h) :
    g.read (h.write v r) = g.read r := by
  cases h <;> cases g <;> try rfl
  all_goals exact absurd rfl e

/-- Copying a group from a frame is writing what is read from it. -/
theorem copy_eq_write (g : Group) (src r : Registers) : g.copy src r = g.write (g.read src) r := by
  cases g <;> rfl

end GuestMachine.Register
