import Curve25519.Word.Double

/-! What a procedure gives, in whatever monad it runs.
A procedure `Returns` a property when one result with the property is what every lawful run ends
with. The checked run is one of them, so such a procedure never breaks a requirement, and the
plain run is another, with the same result. -/

namespace Curve25519

/-- One text, to be run in any monad that offers `require`. -/
abbrev Procedure (α : Type) : Type 1 :=
  (m : Type → Type) → [Monad m] → [MonadRequire m] → m α

/-- Every lawful run of the procedure ends with the same result, and the result has the
property. -/
def Returns {α : Type} (procedure : Procedure α) (property : α → Prop) : Prop :=
  ∃ result, property result ∧
    ∀ (m : Type → Type) [Monad m] [MonadRequire m] [LawfulMonad m] [LawfulMonadRequire m],
      procedure m = pure result

/-- The checked run breaks no requirement, and ends as the plain run does. -/
def Safe {α : Type} (procedure : Procedure α) : Prop :=
  procedure Option = some (Id.run (procedure Id))

namespace Returns

variable {α β : Type} {procedure : Procedure α} {property : α → Prop}

theorem pure (result : α) (holds : property result) :
    Returns (fun _ => Pure.pure result) property :=
  ⟨result, holds, fun _ => rfl⟩

theorem bind {next : α → Procedure β} {final : β → Prop} (first : Returns procedure property)
    (rest : ∀ result, property result → Returns (next result) final) :
    Returns (fun m => procedure m >>= fun result => next result m) final := by
  obtain ⟨middle, holds, runs⟩ := first
  obtain ⟨result, holds', runs'⟩ := rest middle holds
  refine ⟨result, holds', ?_⟩
  intro m _ _ _ _
  change procedure m >>= _ = _
  rw [runs m, pure_bind, runs' m]

theorem mono {weaker : α → Prop} (given : Returns procedure property)
    (implies : ∀ result, property result → weaker result) : Returns procedure weaker := by
  obtain ⟨result, holds, runs⟩ := given
  exact ⟨result, implies result holds, runs⟩

theorem require_bind {condition : Prop} [Decidable condition] (holds : condition)
    (rest : Returns procedure property) :
    Returns (fun m => (require condition : m Unit) >>= fun _ => procedure m) property := by
  obtain ⟨result, holds', runs⟩ := rest
  refine ⟨result, holds', ?_⟩
  intro m _ _ _ _
  change (require condition : m Unit) >>= _ = _
  rw [LawfulMonadRequire.require_of holds, pure_bind, runs m]

theorem run (given : Returns procedure property) : property (Id.run (procedure Id)) := by
  obtain ⟨result, holds, runs⟩ := given
  rw [runs Id]
  exact holds

theorem safe (given : Returns procedure property) : Safe procedure := by
  obtain ⟨result, _, runs⟩ := given
  rw [Safe, runs Option, runs Id]
  rfl

end Returns

namespace Safe

variable {α β : Type} {procedure : Procedure α}

theorem pure (result : α) : Safe (fun _ => Pure.pure result) := rfl

theorem bind {next : α → Procedure β} (first : Safe procedure)
    (rest : ∀ result, Safe (next result)) :
    Safe (fun m => procedure m >>= fun result => next result m) := by
  have second := rest (Id.run (procedure Id))
  unfold Safe at first second
  change procedure Option >>= (fun result => next result Option) = _
  rw [first]
  exact second

theorem isSome (safe : Safe procedure) : (procedure Option).isSome := by
  rw [safe]
  rfl

end Safe

namespace Word

theorem add_returns (x y : UInt64) (fits : x.toNat + y.toNat < UInt64.size) :
    Returns (fun _ => add x y) (fun z => z.toNat = x.toNat + y.toNat) :=
  ⟨x + y, (UInt64.toNat_add x y).trans (Nat.mod_eq_of_lt fits), fun _ => add_of_fits fits⟩

theorem sub_returns (x y : UInt64) (le : y.toNat ≤ x.toNat) :
    Returns (fun _ => sub x y) (fun z => z.toNat = x.toNat - y.toNat) :=
  ⟨x - y, UInt64.toNat_sub_of_le _ _ (UInt64.le_iff_toNat_le.mpr le),
    fun _ => sub_of_le (UInt64.le_iff_toNat_le.mpr le)⟩

theorem mul_returns (x y : UInt64) (fits : x.toNat * y.toNat < UInt64.size) :
    Returns (fun _ => mul x y) (fun z => z.toNat = x.toNat * y.toNat) :=
  ⟨x * y, (UInt64.toNat_mul x y).trans (Nat.mod_eq_of_lt fits), fun _ => mul_of_fits fits⟩

end Word

namespace DoubleWord

theorem ofSum_returns (sum : Nat) (fits : sum < size) :
    Returns (fun _ => ofSum sum) (fun column => column.toNat = sum) :=
  ⟨BitVec.ofNat 128 sum, (BitVec.toNat_ofNat sum 128).trans (Nat.mod_eq_of_lt fits),
    fun _ => ofSum_of_fits fits⟩

theorem carry_returns (column : DoubleWord) (fits : column.toNat >>> 51 < UInt64.size) :
    Returns (fun _ => carry column) (fun word => word.toNat = column.toNat >>> 51) :=
  ⟨UInt64.ofNat (column.toNat >>> 51), UInt64.toNat_ofNat_of_lt' fits,
    fun _ => carry_of_fits fits⟩

theorem addCarry_returns (column : DoubleWord) (carried : UInt64)
    (fits : column.toNat + carried.toNat < size) :
    Returns (fun _ => addCarry column carried)
      (fun sum => sum.toNat = column.toNat + carried.toNat) :=
  ofSum_returns _ fits

end DoubleWord
end Curve25519
