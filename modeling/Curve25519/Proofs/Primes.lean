import Mathlib.NumberTheory.LegendreSymbol.Basic
import Mathlib.NumberTheory.LucasPrimality
import Mathlib.Tactic.NormNum.Prime
import Curve25519.Limbs

/-! The primes of the curve, the modulus of the field, the order of the base point and the great
factor of the order of the twist, and the square classes that the choice of coordinates rests on.
A number is prime when some base has order exactly one less: one power is one, and for each prime
factor of the order the smaller power is not. -/

namespace Curve25519

def powerMod (modulus : Nat) : (bits : Nat) → (base exponent : Nat) → Nat
  | 0, _, _ => 1 % modulus
  | bits + 1, base, exponent =>
      let rest := powerMod modulus bits (base * base % modulus) (exponent / 2)
      if exponent % 2 = 1 then rest * base % modulus else rest

theorem powerMod_cast (modulus bits base exponent : Nat) (fits : exponent < 2 ^ bits) :
    (powerMod modulus bits base exponent : ZMod modulus) = (base : ZMod modulus) ^ exponent := by
  induction bits generalizing base exponent with
  | zero =>
    have none : exponent = 0 := by simpa using fits
    simp [powerMod, none]
  | succ bits ih =>
    have half : exponent / 2 < 2 ^ bits := by rw [pow_succ] at fits; omega
    have split := Nat.div_add_mod exponent 2
    have step := ih (base * base % modulus) (exponent / 2) half
    have square : ((base * base % modulus : Nat) : ZMod modulus) = (base : ZMod modulus) ^ 2 := by
      rw [ZMod.natCast_mod]; push_cast; ring
    rw [square, ← pow_mul] at step
    by_cases odd : exponent % 2 = 1
    · simp only [powerMod, if_pos odd, ZMod.natCast_mod, Nat.cast_mul, step]
      rw [← pow_succ, ← odd, split]
    · have even : exponent % 2 = 0 := by omega
      simp only [powerMod, if_neg odd, step]
      rw [← split, even, Nat.add_zero, Nat.mul_div_cancel_left _ (by decide)]

theorem powerMod_lt (modulus bits base exponent : Nat) (above : 1 < modulus) :
    powerMod modulus bits base exponent < modulus := by
  cases bits with
  | zero => exact Nat.mod_lt _ (by omega)
  | succ bits =>
    have rest := powerMod_lt modulus bits (base * base % modulus) (exponent / 2) above
    by_cases odd : exponent % 2 = 1
    · simp only [powerMod, if_pos odd]
      exact Nat.mod_lt _ (by omega)
    · simpa only [powerMod, if_neg odd] using rest

/-- A base whose order is one less than the number, where these are the prime factors of that. -/
structure FullOrder (number base : Nat) (factors : List Nat) : Prop where
  product : factors.prod + 1 = number
  size : number < 2 ^ 256
  whole : powerMod number 256 base (number - 1) = 1
  parts : ∀ factor ∈ factors, powerMod number 256 base ((number - 1) / factor) ≠ 1

instance (number base : Nat) (factors : List Nat) : Decidable (FullOrder number base factors) :=
  decidable_of_iff
    (factors.prod + 1 = number ∧ number < 2 ^ 256 ∧ powerMod number 256 base (number - 1) = 1 ∧
      ∀ factor ∈ factors, powerMod number 256 base ((number - 1) / factor) ≠ 1)
    ⟨fun ⟨product, size, whole, parts⟩ => ⟨product, size, whole, parts⟩,
      fun order => ⟨order.product, order.size, order.whole, order.parts⟩⟩

theorem FullOrder.prime {number base : Nat} {factors : List Nat}
    (order : FullOrder number base factors) (primes : ∀ factor ∈ factors, factor.Prime) :
    number.Prime := by
  have small : ∀ exponent ≤ number - 1, exponent < 2 ^ 256 := by
    intro exponent le
    have size := order.size
    omega
  have above : 1 < number := by
    have positive : 0 < factors.prod :=
      List.prod_pos fun factor member => (primes factor member).pos
    have product := order.product
    omega
  have unit : ∀ exponent ≤ number - 1, (base : ZMod number) ^ exponent = 1 →
      powerMod number 256 base exponent = 1 := by
    intro exponent le one
    rw [← powerMod_cast number 256 base exponent (small exponent le)] at one
    have same := (ZMod.natCast_eq_natCast_iff' _ 1 number).mp (by simpa using one)
    rwa [Nat.mod_eq_of_lt above, Nat.mod_eq_of_lt (powerMod_lt number 256 base exponent above)]
      at same
  apply lucas_primality number base
  · rw [← powerMod_cast number 256 base _ (small _ le_rfl), order.whole, Nat.cast_one]
  · intro factor prime divides one
    rw [← order.product, Nat.add_sub_cancel] at divides
    obtain ⟨member, present, divided⟩ := (Prime.dvd_prod_iff prime.prime).mp divides
    have same := (Nat.prime_dvd_prime_iff_eq prime (primes member present)).mp divided
    subst same
    exact order.parts factor present (unit _ (Nat.div_le_self _ _) one)

structure PrimeLink where
  number : Nat
  base : Nat
  factors : List Nat

/-- Each link's factors are known primes or numbers of links before it. -/
def IsPrimeChain : (known : List Nat) → List PrimeLink → Prop
  | _, [] => True
  | known, link :: rest =>
      (∀ factor ∈ link.factors, factor ∈ known) ∧ FullOrder link.number link.base link.factors ∧
        IsPrimeChain (link.number :: known) rest

instance decidableIsPrimeChain :
    (known : List Nat) → (links : List PrimeLink) → Decidable (IsPrimeChain known links)
  | _, [] => isTrue trivial
  | known, link :: rest =>
      have := decidableIsPrimeChain (link.number :: known) rest
      inferInstanceAs (Decidable (_ ∧ _ ∧ _))

theorem IsPrimeChain.prime {known : List Nat} {links : List PrimeLink}
    (chain : IsPrimeChain known links) (primes : ∀ number ∈ known, number.Prime) :
    ∀ link ∈ links, link.number.Prime := by
  induction links generalizing known with
  | nil => simp
  | cons link rest ih =>
    obtain ⟨factors, order, chain⟩ := chain
    have first := order.prime fun factor member => primes factor (factors factor member)
    intro other member
    rcases List.mem_cons.mp member with same | later
    · subst same
      exact first
    · exact ih chain (List.forall_mem_cons.mpr ⟨first, primes⟩) other later

def smallPrimes : List Nat :=
  [2, 3, 5, 7, 11, 13, 19, 23, 31, 41, 43, 47, 73, 107, 127, 223, 269, 307, 353, 1361, 2437, 2851,
    4153, 5879, 30703, 57467, 65147, 75707, 82163, 132049, 132667, 137849, 430751, 531581, 569003,
    1224481, 1923133, 8574133, 58964693]

theorem smallPrimes_prime : ∀ number ∈ smallPrimes, number.Prime := by
  simp only [smallPrimes, List.forall_mem_cons]
  norm_num

def basePointOrder : Nat :=
  7237005577332262213973186563042994240857116359379907606001950938285454250989

/-- A quarter of the order of the twist, 2^253 - 55484635554744707071703875581767296995: what the curve
leaves of the 2 p + 2 points that the two have together. -/
def twistOrder : Nat :=
  14474011154664524427946373126085988481603263447650325797860494125407373907997

def smallTwistPrimes : List Nat :=
  [79, 181, 383, 467, 487, 2281, 3637, 3911, 4363, 8053, 11351, 12527, 28859, 117223, 727169,
    6418733]

theorem smallTwistPrimes_prime : ∀ number ∈ smallTwistPrimes, number.Prime := by
  simp only [smallTwistPrimes, List.forall_mem_cons]
  norm_num

def modulusChain : List PrimeLink :=
  [⟨31757755568855353, 10, [2, 2, 2, 3, 31, 107, 223, 4153, 430751]⟩,
   ⟨2773320623, 5, [2, 2437, 569003]⟩,
   ⟨72106336199, 7, [2, 13, 2773320623]⟩,
   ⟨1919519569386763, 2, [2, 3, 7, 19, 47, 47, 127, 8574133]⟩,
   ⟨75445702479781427272750846543864801, 7, [2, 2, 2, 2, 2, 3, 3, 5, 5, 75707, 72106336199,
      1919519569386763]⟩,
   ⟨74058212732561358302231226437062788676166966415465897661863160754340907, 2, [2, 3, 353, 57467,
      132049, 1923133, 31757755568855353, 75445702479781427272750846543864801]⟩,
   ⟨prime, 2, [2, 2, 3, 65147,
      74058212732561358302231226437062788676166966415465897661863160754340907]⟩]

def orderChain : List PrimeLink :=
  [⟨3044861653679985063343, 5, [2, 3, 11, 30703, 82163, 132667, 137849]⟩,
   ⟨198211423230930754013084525763697, 5, [2, 2, 2, 2, 3, 23, 58964693, 3044861653679985063343]⟩,
   ⟨292386187, 2, [2, 3, 3, 3, 3, 307, 5879]⟩,
   ⟨213441916511, 13, [2, 5, 73, 292386187]⟩,
   ⟨1257559732178653, 2, [2, 2, 3, 7, 23, 531581, 1224481]⟩,
   ⟨4434155615661930479, 17, [2, 41, 43, 1257559732178653]⟩,
   ⟨172054593956031949258510691, 2, [2, 5, 1361, 2851, 4434155615661930479]⟩,
   ⟨19757330305831588566944191468367130476339, 2, [2, 269, 213441916511,
      172054593956031949258510691]⟩,
   ⟨276602624281642239937218680557139826668747, 2, [2, 7,
      19757330305831588566944191468367130476339]⟩,
   ⟨basePointOrder, 2, [2, 2, 3, 11, 198211423230930754013084525763697,
      276602624281642239937218680557139826668747]⟩]

def twistChain : List PrimeLink :=
  [⟨5171003929967, 5, [2, 7, 31, 181, 2281, 28859]⟩,
   ⟨22561162540501040539, 3, [2, 3, 727169, 5171003929967]⟩,
   ⟨1013266244677, 2, [2, 2, 3, 7, 383, 3911, 8053]⟩,
   ⟨743104567, 6, [2, 3, 3, 3637, 11351]⟩,
   ⟨203852586375664218368381551393371968928013, 2, [2, 2, 3, 743104567, 1013266244677,
      22561162540501040539]⟩,
   ⟨104719073621178708975837602950775180438320278101, 2, [2, 2, 5, 5, 11, 467,
      203852586375664218368381551393371968928013]⟩,
   ⟨27413359092552162435694767700453926735143482401279781, 2, [2, 2, 3, 5, 4363,
      104719073621178708975837602950775180438320278101]⟩,
   ⟨1110318119, 7, [2, 7, 13, 487, 12527]⟩,
   ⟨2220636239, 23, [2, 1110318119]⟩,
   ⟨twistOrder, 2, [2, 2, 79, 117223, 6418733, 2220636239,
      27413359092552162435694767700453926735143482401279781]⟩]

theorem prime_prime : Nat.Prime prime :=
  (show IsPrimeChain smallPrimes modulusChain by decide +kernel).prime smallPrimes_prime
    (modulusChain.getLast (by decide)) (List.getLast_mem _)

theorem basePointOrder_prime : Nat.Prime basePointOrder :=
  (show IsPrimeChain smallPrimes orderChain by decide +kernel).prime smallPrimes_prime
    (orderChain.getLast (by decide)) (List.getLast_mem _)

theorem twistOrder_prime : Nat.Prime twistOrder :=
  (show IsPrimeChain (smallPrimes ++ smallTwistPrimes) twistChain by decide +kernel).prime
    (List.forall_mem_append.mpr ⟨smallPrimes_prime, smallTwistPrimes_prime⟩)
    (twistChain.getLast (by decide)) (List.getLast_mem _)

instance : Fact (Nat.Prime prime) := ⟨prime_prime⟩

theorem prime_eq_twice_half : prime = 2 * ((prime - 1) / 2) + 1 := by decide

abbrev Element := ZMod prime

-- Two and four stand in the formulas of the curve. Named here, they are not proved anew to be
-- numerals by every definition that writes them.
instance atLeastTwo_two : Nat.AtLeastTwo 2 := ⟨le_rfl⟩

instance atLeastTwo_four : Nat.AtLeastTwo 4 := ⟨by decide⟩

theorem natCast_ne_zero {n : Nat} (positive : 0 < n) (below : n < prime) :
    (n : Element) ≠ 0 := by
  intro zero
  have divides := (ZMod.natCast_eq_zero_iff n prime).mp zero
  exact absurd (Nat.le_of_dvd positive divides) (Nat.not_le.mpr below)

instance : NeZero (2 : Element) :=
  ⟨by exact_mod_cast natCast_ne_zero two_pos (show 2 < prime by decide)⟩

theorem not_isSquare_of_powerMod (x : Element)
    (nonresidue : powerMod prime 256 x.val (prime / 2) = prime - 1) : ¬IsSquare x := by
  have power : x ^ (prime / 2) = -1 := by
    have cast := powerMod_cast prime 256 x.val (prime / 2) (by decide)
    rw [nonresidue, ZMod.natCast_zmod_val, Nat.cast_sub (by decide), ZMod.natCast_self, Nat.cast_one,
      zero_sub] at cast
    exact cast.symm
  have odd : (2 : Element) ≠ 0 := two_ne_zero
  intro square
  by_cases zero : x = 0
  · rw [zero, zero_pow (by decide)] at power
    exact odd (by linear_combination 2 * power)
  · rw [(ZMod.euler_criterion prime zero).mp square] at power
    exact odd (by linear_combination power)

theorem two_not_isSquare : ¬IsSquare (2 : Element) :=
  not_isSquare_of_powerMod 2 (by decide +kernel)

end Curve25519
