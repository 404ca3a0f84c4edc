import Mathlib.Tactic.Push
import Mathlib.Algebra.Group.Int.Defs
import Mathlib.Algebra.Group.Nat.Defs

namespace Posix

/-- A process has a number and a group, which are positive and fit a `pid_t`. -/
structure Process where
  pid : Nat
  group : Nat
  positive : 0 < pid ∧ 0 < group
  bounded : pid < 2 ^ 31 ∧ group < 2 ^ 31

/-- A signal to a number reaches a process of that number, and a number that is not positive stands
for the sender's group, for every process or for another group. -/
def Reaches (sender : Nat) (number : Int) (process : Process) : Prop :=
  if 0 < number then (process.pid : Int) = number
  else if number = 0 then process.group = sender
  else if number = -1 then True
  else (process.group : Int) = -number

/-- The command `kill` reads a number. One that does not fit a `pid_t` is refused, or it is taken
for the number that its bits are. -/
structure KillCommand where
  read : UInt32 → Option Int
  small : ∀ pid : UInt32, pid.toNat < 2 ^ 31 → read pid = some pid.toNat
  large : ∀ pid : UInt32, 2 ^ 31 ≤ pid.toNat →
    read pid = none ∨ read pid = some (pid.toNat - 2 ^ 32 : Int)

/-- A signal that the command sends does not reach a process of its own group. -/
def KillCommand.Spares (command : KillCommand) (process : Process) (pid : UInt32) : Prop :=
  ∀ number, command.read pid = some number → ¬ Reaches process.group number process

/-- A number that stands neither for the group of a process nor for every process. -/
structure KillCommand.Plain (command : KillCommand) (process : Process) (pid : UInt32) : Prop where
  nonzero : pid ≠ 0
  unwrapped : 2 ^ 31 ≤ pid.toNat → command.read pid = none ∨
    pid.toNat ≠ 2 ^ 32 - 1 ∧ pid.toNat + process.group ≠ 2 ^ 32

section Spares

variable {command : KillCommand} {process : Process} {pid : UInt32}

theorem not_spares_zero : ¬ command.Spares process 0 := by
  intro spares
  exact spares 0 (command.small 0 (by decide)) rfl

theorem spares_small (other : pid.toNat ≠ process.pid) (nonzero : pid ≠ 0)
    (small : pid.toNat < 2 ^ 31) : command.Spares process pid := by
  intro number read
  rw [command.small pid small] at read
  obtain rfl := Option.some.inj read
  have positive : (0 : Int) < pid.toNat := by
    have some : pid.toNat ≠ 0 := fun zero => nonzero (UInt32.toNat_inj.mp zero)
    omega
  rw [Reaches, if_pos positive]
  omega

theorem spares_large (large : 2 ^ 31 ≤ pid.toNat) : command.Spares process pid ↔
    command.read pid = none ∨ pid.toNat ≠ 2 ^ 32 - 1 ∧ pid.toNat + process.group ≠ 2 ^ 32 := by
  rcases command.large pid large with refused | wrapped
  · refine iff_of_true ?_ (.inl refused)
    intro number read
    rw [refused] at read
    cases read
  · have bound := pid.toNat_lt
    have group := process.positive.2
    have reached : command.Spares process pid ↔
        ¬ Reaches process.group (pid.toNat - 2 ^ 32 : Int) process := by
      constructor
      · exact fun spares => spares _ wrapped
      · intro away number read
        rw [wrapped] at read
        obtain rfl := Option.some.inj read
        exact away
    rw [reached, Reaches, if_neg (by omega), if_neg (by omega), wrapped, or_iff_right nofun]
    split
    · rename_i all
      constructor
      · exact fun away => absurd trivial away
      · rintro ⟨other, -⟩
        omega
    · omega

/-- A signal to another number than its own spares a process just where the number is plain. -/
theorem spares_iff (other : pid.toNat ≠ process.pid) :
    command.Spares process pid ↔ command.Plain process pid := by
  by_cases zero : pid = 0
  · subst zero
    exact iff_of_false not_spares_zero fun plain => plain.nonzero rfl
  · by_cases large : 2 ^ 31 ≤ pid.toNat
    · rw [spares_large large]
      exact ⟨fun spared => ⟨zero, fun _ => spared⟩, fun plain => plain.unwrapped large⟩
    · exact iff_of_true (spares_small other zero (Nat.lt_of_not_le large))
        ⟨zero, fun high => absurd high large⟩

end Spares

end Posix
