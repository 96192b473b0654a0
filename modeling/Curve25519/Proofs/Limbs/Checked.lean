import Curve25519.Proofs.Limbs.Product

/-! What the checked run asks of words and limbs, exactly.
An operation is safe just where its operands meet what it requires of them; no intermediate sum,
product or carry asks for more. As a run ends only if the runs of its parts do, a safe procedure
calls no operation on other operands than these. -/

namespace Curve25519

section Runs
variable {α β : Type}

theorem require_bind_isSome_iff {condition : Prop} [Decidable condition] (rest : Unit → Option α) :
    ((require condition : Option Unit) >>= rest).isSome ↔ condition ∧ (rest ()).isSome := by
  by_cases holds : condition
  · rw [LawfulMonadRequire.require_of holds, pure_bind]
    exact (and_iff_right holds).symm
  · have stopped : (require condition : Option Unit) = none := if_neg holds
    rw [stopped]
    exact iff_of_false Bool.false_ne_true fun both => holds both.1

theorem bind_isSome_iff {first : Option α} {rest : α → Option β} {condition : Prop}
    (second : ∀ result, (rest result).isSome ↔ condition) :
    (first >>= rest).isSome ↔ first.isSome ∧ condition := by
  cases first with
  | none => exact iff_of_false Bool.false_ne_true fun both => Bool.false_ne_true both.1
  | some result => exact (second result).trans (and_iff_right rfl).symm

end Runs

namespace Word
variable (x y : UInt64)

theorem add_isSome_iff : (add x y : Option UInt64).isSome ↔ x.toNat + y.toNat < 2 ^ 64 := by
  unfold add
  rw [require_bind_isSome_iff]
  exact and_iff_left rfl

theorem add_safe_iff : Safe (fun _ => add x y) ↔ x.toNat + y.toNat < 2 ^ 64 :=
  ⟨fun safe => (add_isSome_iff x y).mp safe.isSome, fun fits => (add_returns x y fits).safe⟩

theorem sub_safe_iff : Safe (fun _ => sub x y) ↔ y.toNat ≤ x.toNat := by
  refine ⟨fun safe => ?_, fun le => (sub_returns x y le).safe⟩
  have passed := safe.isSome
  unfold sub at passed
  rw [require_bind_isSome_iff] at passed
  exact UInt64.le_iff_toNat_le.mp passed.1

theorem mul_safe_iff : Safe (fun _ => mul x y) ↔ x.toNat * y.toNat < 2 ^ 64 := by
  refine ⟨fun safe => ?_, fun fits => (mul_returns x y fits).safe⟩
  have passed := safe.isSome
  unfold mul at passed
  rw [require_bind_isSome_iff] at passed
  exact passed.1

end Word

theorem DoubleWord.ofSum_safe_iff (sum : Nat) : Safe (fun _ => ofSum sum) ↔ sum < 2 ^ 128 := by
  refine ⟨fun safe => ?_, fun fits => (ofSum_returns sum fits).safe⟩
  have passed := safe.isSome
  unfold ofSum at passed
  rw [require_bind_isSome_iff] at passed
  exact passed.1

namespace Limbs
variable (a b : Limbs)

theorem zipWith_isSome_iff (f : UInt64 → UInt64 → Option UInt64) :
    (zipWith f a b).isSome ↔ (f a.l0 b.l0).isSome ∧ (f a.l1 b.l1).isSome ∧
      (f a.l2 b.l2).isSome ∧ (f a.l3 b.l3).isSome ∧ (f a.l4 b.l4).isSome := by
  unfold zipWith
  refine bind_isSome_iff fun c0 => ?_
  refine bind_isSome_iff fun c1 => ?_
  refine bind_isSome_iff fun c2 => ?_
  refine bind_isSome_iff fun c3 => ?_
  cases f a.l4 b.l4 <;> exact Iff.rfl

theorem add_isSome_iff : (add a b : Option Limbs).isSome ↔ SumsFit a b := by
  unfold add
  rw [zipWith_isSome_iff, Word.add_isSome_iff, Word.add_isSome_iff, Word.add_isSome_iff,
    Word.add_isSome_iff, Word.add_isSome_iff]
  exact Iff.rfl

theorem add_safe_iff : Safe (fun _ => add a b) ↔ SumsFit a b :=
  ⟨fun safe => (add_isSome_iff a b).mp safe.isSome, fun fits => (add_returns a b fits).safe⟩

theorem sub_safe_iff :
    Safe (fun _ => sub a b) ↔ b.AtMost sixteenPrimes ∧ SumsFit a sixteenPrimes := by
  refine ⟨fun safe => ?_, fun ⟨atMost, fits⟩ => (sub_returns a b atMost fits).safe⟩
  have passed := safe.isSome
  unfold sub at passed
  rw [require_bind_isSome_iff] at passed
  have raised := Option.isSome_of_isSome_bind passed.2
  exact ⟨passed.1, (add_isSome_iff a sixteenPrimes).mp raised⟩

theorem neg_safe_iff : Safe (fun _ => neg a) ↔ a.AtMost sixteenPrimes := by
  refine ⟨fun safe => ?_, fun atMost => (neg_returns a atMost).safe⟩
  have passed := safe.isSome
  unfold neg at passed
  rw [require_bind_isSome_iff] at passed
  exact passed.1

theorem mul_safe_iff : Safe (fun _ => mul a b) ↔ a.Below (2 ^ 54) ∧ b.Below (2 ^ 54) := by
  refine ⟨fun safe => ?_, fun ⟨first, second⟩ => (mul_returns a b first second).safe⟩
  have passed := safe.isSome
  unfold mul at passed
  rw [require_bind_isSome_iff, require_bind_isSome_iff] at passed
  exact ⟨passed.1, passed.2.1⟩

theorem below_of_square_isSome (passed : (square a : Option Limbs).isSome) :
    a.Below (2 ^ 54) := by
  unfold square at passed
  rw [require_bind_isSome_iff] at passed
  exact passed.1

theorem square_safe_iff : Safe (fun _ => square a) ↔ a.Below (2 ^ 54) :=
  ⟨fun safe => below_of_square_isSome a safe.isSome, fun below => (square_returns a below).safe⟩

theorem twiceSquare_safe_iff : Safe (fun _ => twiceSquare a) ↔ a.Below (2 ^ 54) := by
  refine ⟨fun safe => ?_, fun below => (twiceSquare_returns a below).safe⟩
  have passed := safe.isSome
  unfold twiceSquare at passed
  exact below_of_square_isSome a (Option.isSome_of_isSome_bind passed)

/-- Only the first of the squares asks for anything of the limbs, as the others start from products. -/
theorem squareTimes_safe_iff (count : Nat) :
    Safe (fun _ => squareTimes a count) ↔ 0 < count ∧ a.Below (2 ^ 54) := by
  refine ⟨fun safe => ?_, fun ⟨positive, below⟩ => (squareTimes_returns a below count positive).safe⟩
  have passed := safe.isSome
  unfold squareTimes at passed
  rw [require_bind_isSome_iff] at passed
  obtain ⟨positive, squared⟩ := passed
  cases count with
  | zero => exact absurd positive (Nat.lt_irrefl 0)
  | succ count =>
    unfold iterSquare at squared
    exact ⟨positive, below_of_square_isSome a (Option.isSome_of_isSome_bind squared)⟩

end Limbs
end Curve25519
