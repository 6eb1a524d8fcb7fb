import GuestMachine.Exit.Reason

/-! The badge a delivered exit carries.

A hypervisor hands back one word with an exit. It holds the number of the vCPU
above the byte of the exit reason, and both are read off it again. -/
namespace GuestMachine.Exit

/-- Sequence number of a vCPU in its machine. Numbers have 32 bits: the one that is
given out after `UInt32.size` others is zero again. -/
abbrev VcpuId := Nat

structure Badge where
  word : UInt64
deriving DecidableEq

namespace Badge

def make (vcpu : VcpuId) (reason : Reason) : Badge :=
  ⟨(vcpu.toUInt32.toUInt64 <<< 8) ||| reason.toUInt64⟩

/-- A number has 32 bits: whatever lies above them is dropped. -/
def vcpu (b : Badge) : VcpuId := (b.word >>> 8).toUInt32.toNat

def reason (b : Badge) : Reason := b.word.toUInt8

/-- The two parts of a badge do not meet. -/
theorem toNat_make (id : Nat) (r : Reason) : (make id r).word.toNat = id % UInt32.size * 256 + r.toNat := by
  have hid : id % UInt32.size < UInt32.size := Nat.mod_lt id (by decide)
  have hr : r.toNat < 2 ^ 8 := r.toNat_lt
  have hword : (make id r).word.toNat = (id % UInt32.size) <<< 8 % 2 ^ 64 ||| r.toNat := by
    simp [make, UInt32.size]
  generalize id % UInt32.size = n at *
  rw [UInt32.size] at hid
  rw [hword, Nat.shiftLeft_eq, Nat.mod_eq_of_lt (by omega), Nat.mul_comm, ← Nat.two_pow_add_eq_or_of_lt hr,
    Nat.mul_comm]

/-- A badge leads back to the number it was made of. -/
@[simp] theorem vcpu_make (id : Nat) (r : Reason) : (make id r).vcpu = id % UInt32.size := by
  have hr : r.toNat < 2 ^ 8 := r.toNat_lt
  have hvcpu : (make id r).vcpu = (make id r).word.toNat / 256 % UInt32.size := by
    simp [vcpu, Nat.shiftRight_eq_div_pow, UInt32.size]
  have habove : (id % UInt32.size * 256 + r.toNat) / 256 = id % UInt32.size := by omega
  rw [hvcpu, toNat_make, habove, Nat.mod_mod]

theorem vcpu_make_of_lt {id : VcpuId} (h : id < UInt32.size) (r : Reason) : (make id r).vcpu = id := by
  rw [vcpu_make, Nat.mod_eq_of_lt h]

@[simp] theorem reason_make (id : Nat) (r : Reason) : (make id r).reason = r := by
  have hr : r.toNat < 2 ^ 8 := r.toNat_lt
  refine UInt8.toNat_inj.mp ?_
  have hreason : (make id r).reason.toNat = (make id r).word.toNat % 256 := by
    simp [reason]
  rw [hreason, toNat_make]
  omega

example : (make 3 .recalled).word = 0x3ff := by decide

end Badge

end GuestMachine.Exit
