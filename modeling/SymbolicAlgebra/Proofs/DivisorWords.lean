import Mathlib.Algebra.GCDMonoid.Multiset
import Mathlib.Algebra.GCDMonoid.Nat
import SymbolicAlgebra.Proofs.FloatValues
import SymbolicAlgebra.Proofs.SimplifyRun

set_option autoImplicit false

/-!
# Divisors and multiples of words

Simplification folds greatest common divisors and least common multiples in signed words of 64
bits, where an absolute value, a product or a quotient may leave the range, and a quotient or a
remainder may have no divisor. This module holds the two folds once more with every such step
checked. A step that fails is an outcome of its own, except at the two steps at which the source
asks for it and leaves the expression as it is.

No word among the arguments is the least one, because that is no literal of a size below `2 ^ 63`.
So absolute values stay in the range, Euclid's loop runs on words that are not negative, and its
result is not zero where it divides. The folds on words therefore never fail, and they are the
folds on integers that simplification runs.

What this module delivers:

- `Word`: the checked steps, Euclid's loop and the two folds.
- `Word.gcd_ofInt` and `Word.lcm?_ofInt`, one step of the folds.
- `Word.divisors_eq_aggregateValue?`: the folds on words never fail and agree with
  `Fold.aggregateValue?`.
- `Fold.dvd_gcdFrom_iff` and `Fold.lcmFrom?_spec`: the folds on integers are what their names say.
- `Expr.divisors_folded`: what the folds of real literals are.
-/

namespace SymbolicAlgebra

/-! ## Checked steps -/

/-- What stops a step on words. -/
inductive WordFault where
  /-- The result is out of the range. -/
  | overflow
  /-- There is a division by zero. -/
  | divisionByZero

namespace Word

/-- The word of an integer, if the integer is in the range. -/
def ofInt? (n : ℤ) : Option Int64 :=
  if -2 ^ 63 ≤ n ∧ n < 2 ^ 63 then some (Int64.ofInt n) else none

/-- The word of an integer that has to be in the range. -/
def exact (n : ℤ) : Except WordFault Int64 := (ofInt? n).elim (.error .overflow) .ok

/-- The absolute value, if it is in the range. -/
def abs? (a : Int64) : Option Int64 := ofInt? |a.toInt|

/-- The product, if it is in the range. -/
def mul? (a b : Int64) : Option Int64 := ofInt? (a.toInt * b.toInt)

/-- The absolute value. -/
def abs (a : Int64) : Except WordFault Int64 := exact |a.toInt|

/-- The quotient, toward zero. -/
def quotient (a b : Int64) : Except WordFault Int64 :=
  if b = 0 then .error .divisionByZero else exact (a.toInt.tdiv b.toInt)

/-- The remainder, with the sign of the dividend. It overflows where the quotient does. -/
def remainder (a b : Int64) : Except WordFault Int64 := do
  let _ ← quotient a b
  exact (a.toInt.tmod b.toInt)

theorem toInt_of_ofInt? {n : ℤ} {a : Int64} (h : ofInt? n = some a) : a.toInt = n := by
  unfold ofInt? at h
  split at h
  · rename_i hn
    cases h
    exact Int64.toInt_ofInt_of_le hn.1 hn.2
  · cases h

theorem toInt_of_exact {n : ℤ} {a : Int64} (h : exact n = .ok a) : a.toInt = n := by
  unfold exact at h
  cases hn : ofInt? n with
  | none =>
    rw [hn] at h
    cases h
  | some b =>
    rw [hn] at h
    cases h
    exact toInt_of_ofInt? hn

/-- A remainder is smaller than the divisor. -/
theorem natAbs_remainder_lt {a b r : Int64} (hb : b ≠ 0) (h : remainder a b = .ok r) :
    r.toInt.natAbs < b.toInt.natAbs := by
  obtain ⟨q, -, h⟩ := Expr.bind_eq_ok_iff.1 h
  rw [toInt_of_exact h, Int.natAbs_tmod]
  refine Nat.mod_lt _ (Int.natAbs_pos.2 fun h => hb ?_)
  rw [← Int64.toInt_inj, h, Int64.toInt_zero]

/-! ## The folds -/

/-- Euclid's loop. -/
def euclid (a b : Int64) : Except WordFault Int64 :=
  if hb : b = 0 then .ok a
  else
    match hr : remainder a b with
    | .error f => .error f
    | .ok r =>
      have := natAbs_remainder_lt hb hr
      euclid b r
termination_by b.toInt.natAbs

/-- The greatest common divisor of two words. -/
def gcd (a b : Int64) : Except WordFault Int64 := do
  let a ← abs a
  let b ← abs b
  euclid a b

/-- The least common multiple of two words, if it is in the range. -/
def lcm? (a b : Int64) : Except WordFault (Option Int64) :=
  if a = 0 ∨ b = 0 then .ok (some 0)
  else do
    let g ← gcd a b
    let q ← quotient a g
    return (mul? q b).bind abs?

/-- The greatest common divisor of the first word and those that follow. -/
def gcdFrom : Int64 → List Int64 → Except WordFault Int64
  | a, [] => .ok a
  | a, b :: bs => do
    let g ← gcd a b
    gcdFrom g bs

/-- The least common multiple of the first word and those that follow, unless a running multiple
leaves the range. -/
def lcmFrom? : Int64 → List Int64 → Except WordFault (Option Int64)
  | a, [] => .ok (some a)
  | a, b :: bs => do
    match ← lcm? a b with
    | none => return none
    | some m => lcmFrom? m bs

variable {R : Type} [Scalar R]

/-- The words of a list of scalars, if each of them denotes an integer of a size below the machine
bound. -/
def words? (vs : List R) : Option (List Int64) :=
  vs.mapM fun v => (Scalar.machineInteger? v).map Int64.ofInt

/-- The fold of a greatest common divisor of scalars. -/
def gcdOf (vs : List R) : Except WordFault (Option Int64) :=
  match words? vs with
  | some (a :: bs) => (gcdFrom a bs).map some
  | _ => .ok none

/-- The fold of a least common multiple of scalars. -/
def lcmOf (vs : List R) : Except WordFault (Option Int64) :=
  match words? vs with
  | some (a :: bs) => lcmFrom? a bs
  | _ => .ok none

/-! ## Steps in the range -/

/-- The integer has a word that is not the least one. -/
def Small (n : ℤ) : Prop := n.natAbs < 2 ^ 63

theorem toInt_ofInt {n : ℤ} (h : Small n) : (Int64.ofInt n).toInt = n := by
  unfold Small at h
  exact Int64.toInt_ofInt_of_le (by omega) (by omega)

theorem ofInt?_small {n : ℤ} (h : Small n) : ofInt? n = some (Int64.ofInt n) := by
  unfold Small at h
  exact if_pos ⟨by omega, by omega⟩

theorem exact_small {n : ℤ} (h : Small n) : exact n = .ok (Int64.ofInt n) := by
  rw [exact, ofInt?_small h]
  rfl

theorem ofInt_eq_zero_iff {n : ℤ} (h : Small n) : Int64.ofInt n = 0 ↔ n = 0 := by
  rw [← Int64.toInt_inj, toInt_ofInt h, Int64.toInt_zero]

theorem small_abs {n : ℤ} (h : Small n) : Small |n| := by
  rwa [Small, Int.natAbs_abs]

theorem small_gcd {m n : ℤ} (hm : Small m) (hn : Small n) : Small (m.gcd n) := by
  rcases eq_or_ne m 0 with rfl | hne
  · rwa [Int.gcd_zero_left, ← Int.abs_eq_natAbs, Small, Int.natAbs_abs]
  · exact (Nat.gcd_le_left _ (Int.natAbs_pos.2 hne)).trans_lt hm

theorem abs_ofInt {n : ℤ} (h : Small n) : abs (Int64.ofInt n) = .ok (Int64.ofInt |n|) := by
  rw [abs, toInt_ofInt h, exact_small (small_abs h)]

theorem quotient_ofInt {m n : ℤ} (hm : Small m) (hn : Small n) (h : n ≠ 0) :
    quotient (Int64.ofInt m) (Int64.ofInt n) = .ok (Int64.ofInt (m.tdiv n)) := by
  rw [quotient, if_neg (mt (ofInt_eq_zero_iff hn).1 h), toInt_ofInt hm, toInt_ofInt hn]
  refine exact_small ?_
  rw [Small, Int.natAbs_tdiv]
  exact (Nat.div_le_self _ _).trans_lt hm

theorem remainder_ofInt {m n : ℤ} (hm : Small m) (hn : Small n) (h : n ≠ 0) :
    remainder (Int64.ofInt m) (Int64.ofInt n) = .ok (Int64.ofInt (m.tmod n)) := by
  rw [remainder, quotient_ofInt hm hn h, toInt_ofInt hm, toInt_ofInt hn]
  refine exact_small ?_
  rw [Small, Int.natAbs_tmod]
  exact (Nat.mod_le _ _).trans_lt hm

theorem euclid_zero (a : Int64) : euclid a 0 = .ok a := by
  rw [euclid, dif_pos rfl]

theorem euclid_of_remainder {a b r : Int64} (hb : b ≠ 0) (hr : remainder a b = .ok r) :
    euclid a b = euclid b r := by
  rw [euclid, dif_neg hb]
  split
  · rename_i h
    cases hr.symm.trans h
  · rename_i h
    cases hr.symm.trans h
    rfl

/-- Euclid's loop on numbers that are not negative. -/
theorem euclid_ofInt {m n : ℕ} (hm : Small m) (hn : Small n) :
    euclid (Int64.ofInt m) (Int64.ofInt n) = .ok (Int64.ofInt (m.gcd n)) := by
  induction n using Nat.strongRecOn generalizing m with
  | ind n ih =>
    rcases Nat.eq_zero_or_pos n with rfl | hpos
    · rw [Nat.gcd_zero_right]
      exact euclid_zero _
    · have hzero : (n : ℤ) ≠ 0 := by exact_mod_cast hpos.ne'
      have hmod : m % n < n := Nat.mod_lt m hpos
      rw [euclid_of_remainder (mt (ofInt_eq_zero_iff hn).1 hzero) (remainder_ofInt hm hn hzero),
        ← Int.ofNat_tmod, ih (m % n) hmod hn (hmod.trans hn), Nat.gcd_comm n, ← Nat.gcd_rec,
        Nat.gcd_comm]

/-- The greatest common divisor of two words. -/
theorem gcd_ofInt {m n : ℤ} (hm : Small m) (hn : Small n) :
    gcd (Int64.ofInt m) (Int64.ofInt n) = .ok (Int64.ofInt (m.gcd n)) := by
  rw [gcd, abs_ofInt hm, abs_ofInt hn, Int.abs_eq_natAbs, Int.abs_eq_natAbs]
  exact euclid_ofInt hm hn

/-- A product and then its absolute value are in the range where the absolute value is. -/
theorem mul?_bind_abs? (a b : Int64) : (mul? a b).bind abs? = ofInt? |a.toInt * b.toInt| := by
  rw [mul?]
  generalize a.toInt * b.toInt = n
  by_cases h : -2 ^ 63 ≤ n ∧ n < 2 ^ 63
  · rw [ofInt?, if_pos h, Option.bind_some, abs?, Int64.toInt_ofInt_of_le h.1 h.2]
  · have hle := le_abs_self n
    have hneg := neg_abs_le n
    have habs : ¬(-2 ^ 63 ≤ |n| ∧ |n| < 2 ^ 63) := fun h' => h ⟨by omega, by omega⟩
    rw [ofInt?, if_neg h, ofInt?, if_neg habs]
    rfl

/-- The quotient by the greatest common divisor times the other integer is the least common
multiple, up to the sign. -/
theorem abs_tdiv_gcd_mul (m n : ℤ) : |m.tdiv (m.gcd n) * n| = m.lcm n := by
  rw [Int.abs_eq_natAbs, Int.natAbs_mul, Int.natAbs_tdiv, Int.natAbs_natCast]
  exact congrArg Nat.cast (Nat.div_mul_right_comm (Nat.gcd_dvd_left _ _) _)

/-- The least common multiple of two words, if it has a word. -/
theorem lcm?_ofInt {m n : ℤ} (hm : Small m) (hn : Small n) :
    lcm? (Int64.ofInt m) (Int64.ofInt n) = .ok (ofInt? (m.lcm n)) := by
  rw [lcm?]
  simp only [ofInt_eq_zero_iff hm, ofInt_eq_zero_iff hn]
  by_cases hzero : m = 0 ∨ n = 0
  · rw [if_pos hzero, Int.lcm_eq_zero_iff.2 hzero]
    rfl
  · have hgcd : (m.gcd n : ℤ) ≠ 0 := by
      rw [Ne, Int.natCast_eq_zero, Int.gcd_eq_zero_iff]
      exact fun h => hzero (.inl h.1)
    rw [if_neg hzero, gcd_ofInt hm hn]
    change (quotient (Int64.ofInt m) (Int64.ofInt (m.gcd n)) >>= fun q =>
      Except.ok ((mul? q (Int64.ofInt n)).bind abs?)) = _
    have hquotient : Small (m.tdiv (m.gcd n)) := by
      rw [Small, Int.natAbs_tdiv]
      exact (Nat.div_le_self _ _).trans_lt hm
    rw [quotient_ofInt hm (small_gcd hm hn) hgcd]
    change Except.ok ((mul? (Int64.ofInt (m.tdiv (m.gcd n))) (Int64.ofInt n)).bind abs?) = _
    rw [mul?_bind_abs?, toInt_ofInt hquotient, toInt_ofInt hn, abs_tdiv_gcd_mul]

/-! ## Runs of the folds -/

/-- The fold of greatest common divisors of words is the one of integers. -/
theorem gcdFrom_ofInt {n : ℤ} {ns : List ℤ} (hn : Small n) (hns : ∀ m ∈ ns, Small m) :
    gcdFrom (Int64.ofInt n) (ns.map Int64.ofInt) = .ok (Int64.ofInt (Fold.gcdFrom n ns)) ∧
      Small (Fold.gcdFrom n ns) := by
  induction ns generalizing n with
  | nil => exact ⟨rfl, hn⟩
  | cons m ns ih =>
    obtain ⟨hm, hns⟩ := List.forall_mem_cons.1 hns
    rw [List.map_cons, gcdFrom, gcd_ofInt hn hm]
    exact ih (small_gcd hn hm) hns

/-- The fold of least common multiples of words is the one of integers. -/
theorem lcmFrom?_ofInt {n : ℤ} {ns : List ℤ} (hn : Small n) (hns : ∀ m ∈ ns, Small m) :
    lcmFrom? (Int64.ofInt n) (ns.map Int64.ofInt) =
        .ok ((Fold.lcmFrom? n ns).map Int64.ofInt) ∧
      ∀ m, Fold.lcmFrom? n ns = some m → Small m := by
  induction ns generalizing n with
  | nil =>
    refine ⟨rfl, fun m h => ?_⟩
    cases h
    exact hn
  | cons m ns ih =>
    obtain ⟨hm, hns⟩ := List.forall_mem_cons.1 hns
    rw [List.map_cons, lcmFrom?, lcm?_ofInt hn hm, Fold.lcmFrom?]
    by_cases hlcm : n.lcm m < Scalar.machineBound
    · have hsmall : Small (n.lcm m : ℤ) := hlcm
      rw [ofInt?_small hsmall]
      simp only [if_pos hlcm]
      exact ih hsmall hns
    · have hnone : ofInt? (n.lcm m) = none := by
        have hbound : ¬n.lcm m < 2 ^ 63 := hlcm
        exact if_neg fun h => hbound (by omega)
      rw [hnone]
      simp only [if_neg hlcm]
      exact ⟨rfl, nofun⟩

variable {R : Type} [Scalar R]

/-- The integers of scalars, one for each. -/
theorem integers?_eq_some_iff {vs : List R} {ns : List ℤ} : Fold.integers? vs = some ns ↔
    List.Forall₂ (fun v n => Scalar.machineInteger? v = some n) vs ns := by
  induction vs generalizing ns with
  | nil => simp [Fold.integers?, eq_comm]
  | cons v vs ih =>
    rw [Fold.integers?, List.forall₂_cons_left_iff]
    cases hv : Scalar.machineInteger? v with
    | none => simp
    | some n =>
      simp only [← ih, Option.some.injEq]
      cases Fold.integers? vs <;> simp [eq_comm]

/-- There are no integers where one scalar denotes none. -/
theorem integers?_eq_none {vs : List R} {v : R} (hv : v ∈ vs)
    (h : Scalar.machineInteger? v = none) : Fold.integers? vs = none := by
  rw [Option.eq_none_iff_forall_ne_some]
  intro ns hns
  obtain ⟨n, -, hn⟩ := Expr.exists_mem_of_forall₂ (integers?_eq_some_iff.1 hns) hv
  cases h.symm.trans hn

/-- The integers of scalars have words. -/
theorem small_of_integers? {vs : List R} {ns : List ℤ} (h : Fold.integers? vs = some ns) :
    ∀ n ∈ ns, Small n := by
  intro n hn
  obtain ⟨v, -, hv⟩ := Expr.exists_mem_of_forall₂
    (p := fun n v => Scalar.machineInteger? v = some n) (integers?_eq_some_iff.1 h).flip hn
  rw [Scalar.machineInteger?, Option.filter_eq_some_iff, decide_eq_true_eq] at hv
  exact hv.2

/-- The words of scalars are those of their integers. -/
theorem words?_eq (vs : List R) :
    words? vs = (Fold.integers? vs).map (List.map Int64.ofInt) := by
  induction vs with
  | nil => rfl
  | cons v vs ih =>
    rw [words?] at ih
    rw [words?, List.mapM_cons, ih, Fold.integers?]
    cases Scalar.machineInteger? v <;> cases Fold.integers? vs <;> rfl

/-- There is nothing to fold where a scalar denotes no integer. -/
theorem divisors_of_integers?_eq_none {vs : List R} (h : Fold.integers? vs = none) :
    gcdOf vs = .ok none ∧ lcmOf vs = .ok none := by
  rw [gcdOf, lcmOf, words?_eq, h]
  exact ⟨rfl, rfl⟩

/-- The fold of a greatest common divisor never fails. -/
theorem gcdOf_of_integers? {vs : List R} {n : ℤ} {ns : List ℤ}
    (h : Fold.integers? vs = some (n :: ns)) :
    gcdOf vs = .ok (some (Int64.ofInt (Fold.gcdFrom n ns))) ∧ Small (Fold.gcdFrom n ns) := by
  obtain ⟨hn, hns⟩ := List.forall_mem_cons.1 (small_of_integers? h)
  obtain ⟨hrun, hsmall⟩ := gcdFrom_ofInt hn hns
  rw [gcdOf, words?_eq, h]
  simp only [Option.map_some, List.map_cons, hrun]
  exact ⟨rfl, hsmall⟩

/-- The fold of a least common multiple never fails. -/
theorem lcmOf_of_integers? {vs : List R} {n : ℤ} {ns : List ℤ}
    (h : Fold.integers? vs = some (n :: ns)) :
    lcmOf vs = .ok ((Fold.lcmFrom? n ns).map Int64.ofInt) ∧
      ∀ m, Fold.lcmFrom? n ns = some m → Small m := by
  obtain ⟨hn, hns⟩ := List.forall_mem_cons.1 (small_of_integers? h)
  obtain ⟨hrun, hsmall⟩ := lcmFrom?_ofInt hn hns
  rw [lcmOf, words?_eq, h]
  simp only [Option.map_some, List.map_cons]
  exact ⟨hrun, hsmall⟩

/-- The folds of any scalars never fail and give the values that simplification takes. -/
theorem divisors_eq_aggregateValue? (vs : List R) :
    (gcdOf vs).map (Option.map fun g => Scalar.ofInt g.toInt) =
        .ok (Fold.aggregateValue? .gcd vs) ∧
      (lcmOf vs).map (Option.map fun m => Scalar.ofInt m.toInt) =
        .ok (Fold.aggregateValue? .lcm vs) := by
  simp only [Fold.aggregateValue?]
  cases h : Fold.integers? vs with
  | none =>
    obtain ⟨hgcd, hlcm⟩ := divisors_of_integers?_eq_none h
    rw [hgcd, hlcm]
    exact ⟨rfl, rfl⟩
  | some ns =>
    cases ns with
    | nil =>
      rw [gcdOf, lcmOf, words?_eq, h]
      exact ⟨rfl, rfl⟩
    | cons n ns =>
      obtain ⟨hgcd, hsmall⟩ := gcdOf_of_integers? h
      obtain ⟨hlcm, hsmall'⟩ := lcmOf_of_integers? h
      rw [hgcd, hlcm]
      refine ⟨congrArg (fun g => Except.ok (some (Scalar.ofInt g))) (toInt_ofInt hsmall), ?_⟩
      dsimp only
      cases hm : Fold.lcmFrom? n ns with
      | none => rfl
      | some m =>
        exact congrArg (fun m => Except.ok (some (Scalar.ofInt m))) (toInt_ofInt (hsmall' m hm))

end Word

/-! ## What the folds are -/

namespace Fold

/-- The fold of greatest common divisors has the divisors that all its integers have. -/
theorem dvd_gcdFrom_iff {d n : ℤ} {ns : List ℤ} : d ∣ gcdFrom n ns ↔ ∀ m ∈ n :: ns, d ∣ m := by
  induction ns generalizing n with
  | nil => simp [gcdFrom]
  | cons m ns ih =>
    change d ∣ gcdFrom (n.gcd m) ns ↔ _
    rw [ih, List.forall_mem_cons, List.forall_mem_cons, List.forall_mem_cons, Int.dvd_coe_gcd_iff,
      and_assoc]

/-- A greatest common divisor of several integers is not negative. -/
theorem gcdFrom_nonneg {n : ℤ} {ns : List ℤ} (h : 0 ≤ n ∨ ns ≠ []) : 0 ≤ gcdFrom n ns := by
  induction ns generalizing n with
  | nil => exact h.resolve_right fun h => h rfl
  | cons m ns ih => exact ih (.inl (Int.natCast_nonneg _))

/-- One more integer in a least common multiple. -/
theorem coe_lcm_eq_concat {ps : List ℤ} {a : ℤ} (h : |a| = (ps : Multiset ℤ).lcm) (b : ℤ) :
    (a.lcm b : ℤ) = ((ps ++ [b] : List ℤ) : Multiset ℤ).lcm := by
  rw [← Multiset.coe_add, Multiset.lcm_add, ← h, Multiset.coe_singleton, Multiset.lcm_singleton,
    ← Int.abs_eq_normalize, ← Int.coe_lcm, Int.lcm, Int.lcm, Int.natAbs_abs, Int.natAbs_abs]

/-- A prefix of the integers that are left, after those that have been folded. -/
theorem forall_take_cons_iff {p : List ℤ → Prop} {ps bs : List ℤ} {b : ℤ} (h : p ps) :
    (∀ k, p (ps ++ (b :: bs).take k)) ↔ ∀ k, p (ps ++ [b] ++ bs.take k) := by
  constructor
  · intro hp k
    simpa using hp (k + 1)
  · intro hp k
    cases k with
    | zero => simpa using h
    | succ k => simpa using hp k

/-- The fold of least common multiples after the integers `ps`: what it gives is the least common
multiple of all, and it gives one where no prefix reaches the bound. -/
theorem lcmFrom?_spec {a : ℤ} {ps : List ℤ} (ha : |a| = (ps : Multiset ℤ).lcm)
    (hps : (ps : Multiset ℤ).lcm < 2 ^ 63) (bs : List ℤ) :
    (∀ m, lcmFrom? a bs = some m → |m| = ((ps ++ bs : List ℤ) : Multiset ℤ).lcm) ∧
      ((lcmFrom? a bs).isSome = true ↔
        ∀ k, ((ps ++ bs.take k : List ℤ) : Multiset ℤ).lcm < 2 ^ 63) := by
  induction bs generalizing a ps with
  | nil =>
    simp only [lcmFrom?, List.append_nil, List.take_nil, Option.isSome_some]
    refine ⟨fun m h => ?_, iff_of_true trivial fun _ => hps⟩
    cases h
    exact ha
  | cons b bs ih =>
    have hnext := coe_lcm_eq_concat ha b
    rw [lcmFrom?, forall_take_cons_iff (p := fun qs => (qs : Multiset ℤ).lcm < 2 ^ 63) hps]
    by_cases hlcm : a.lcm b < Scalar.machineBound
    · have hbound : ((ps ++ [b] : List ℤ) : Multiset ℤ).lcm < 2 ^ 63 := by
        rw [← hnext]
        exact_mod_cast hlcm
      simp only [if_pos hlcm]
      rw [show ps ++ b :: bs = ps ++ [b] ++ bs by simp]
      exact ih ((abs_of_nonneg (Int.natCast_nonneg _)).trans hnext) hbound
    · simp only [if_neg hlcm]
      refine ⟨nofun, iff_of_false nofun fun h => hlcm ?_⟩
      have hbound := h 0
      simp only [List.take_zero, List.append_nil] at hbound
      rw [← hnext] at hbound
      exact_mod_cast hbound

/-- The fold of least common multiples from its first integer. -/
theorem lcmFrom?_spec_of_small {n : ℤ} (hn : Word.Small n) (ns : List ℤ) :
    (∀ m, lcmFrom? n ns = some m → |m| = ((n :: ns : List ℤ) : Multiset ℤ).lcm) ∧
      ((lcmFrom? n ns).isSome = true ↔
        ∀ k, (((n :: ns).take k : List ℤ) : Multiset ℤ).lcm < 2 ^ 63) := by
  have hfirst : |n| = (([n] : List ℤ) : Multiset ℤ).lcm := by
    rw [Multiset.coe_singleton, Multiset.lcm_singleton, Int.abs_eq_normalize]
  have hbound : (([n] : List ℤ) : Multiset ℤ).lcm < 2 ^ 63 := by
    rw [← hfirst, Int.abs_eq_natAbs]
    exact_mod_cast hn
  have hempty : (([] : List ℤ) : Multiset ℤ).lcm < 2 ^ 63 := by
    rw [Multiset.coe_nil, Multiset.lcm_zero]
    norm_num
  obtain ⟨hvalue, hsome⟩ := lcmFrom?_spec hfirst hbound ns
  refine ⟨hvalue, hsome.trans ?_⟩
  simpa using (forall_take_cons_iff (p := fun qs => (qs : Multiset ℤ).lcm < 2 ^ 63) hempty).symm

/-- A least common multiple of several integers is not negative. -/
theorem nonneg_of_lcmFrom? {n m : ℤ} {ns : List ℤ} (h : 0 ≤ n ∨ ns ≠ [])
    (hm : lcmFrom? n ns = some m) : 0 ≤ m := by
  induction ns generalizing n with
  | nil =>
    cases hm
    exact h.resolve_right fun h => h rfl
  | cons b ns ih =>
    rw [lcmFrom?] at hm
    split at hm
    · exact ih (.inl (Int.natCast_nonneg _)) hm
    · cases hm

end Fold

namespace Expr

variable {R : Type} [Scalar R]

omit [Scalar R] in
/-- The values of real literals. -/
theorem values?_map_number (vs : List R) : Fold.values? (vs.map Expr.number) = some vs := by
  induction vs with
  | nil => rfl
  | cons v vs ih => rw [List.map_cons, Fold.values?, ih]; rfl

/-- An aggregate of real literals is its value, if it has one, and stays as it is otherwise. -/
theorem simplified_aggregate_numbers (op : Aggregate) (vs : List R) :
    (Expr.aggregate op (vs.map .number)).simplified =
      .ok (((Fold.aggregateValue? op vs).map .number).getD (.aggregate op (vs.map .number))) := by
  have hnode : (Expr.aggregate op (vs.map .number)).mapChildren .shape simplified =
      .ok (.aggregate op (vs.map .number)) := by
    refine mapChildren_eq_ok_iff.2 ⟨_, List.forall₂_same.2 fun c hc => ?_, rfl⟩
    obtain ⟨v, -, rfl⟩ := List.mem_map.1 hc
    exact simplified_number v
  have hrule : Rule.reduce? (Expr.aggregate op (vs.map .number)) =
      .ok ((Fold.aggregateValue? op vs).map .number) := by
    rw [Rule.reduce?, Fold.aggregate?, values?_map_number]
  rw [simplified_eq_ok_iff]
  refine ⟨_, hnode, ?_⟩
  rw [hrule]
  cases Fold.aggregateValue? op vs with
  | none => exact .inl ⟨rfl, rfl⟩
  | some v => exact .inr ⟨.number v, rfl, simplified_number v⟩

/-- Divisors and multiples of real literals are simplified as the folds on words say. -/
theorem simplified_of_divisorWords {vs : List R} {w : Option Int64} :
    (Word.gcdOf vs = .ok w → (Expr.aggregate .gcd (vs.map .number)).simplified =
      .ok ((w.map fun g => .number (Scalar.ofInt g.toInt)).getD
        (.aggregate .gcd (vs.map .number)))) ∧
    (Word.lcmOf vs = .ok w → (Expr.aggregate .lcm (vs.map .number)).simplified =
      .ok ((w.map fun m => .number (Scalar.ofInt m.toInt)).getD
        (.aggregate .lcm (vs.map .number)))) := by
  obtain ⟨hgcd, hlcm⟩ := Word.divisors_eq_aggregateValue? vs
  constructor
  · intro h
    rw [h] at hgcd
    rw [simplified_aggregate_numbers, ← Except.ok.inj hgcd, Option.map_map]
    rfl
  · intro h
    rw [h] at hlcm
    rw [simplified_aggregate_numbers, ← Except.ok.inj hlcm, Option.map_map]
    rfl

end Expr

/-! ## Real literals -/

namespace SignedFloat

open Float.Model.UnpackedFloat (Sign)

/-- The literal is an integer of a size below `2 ^ 63`. -/
def Denotes (v : SignedFloat) (n : ℤ) : Prop :=
  Binary64.exactValue? v.value = some (n : ℚ) ∧ n.natAbs < 2 ^ 63

/-- The literal of an integer that fits into 53 bits is that integer. -/
theorem denotes_ofInt (s : Sign) {k m : ℕ} {e : ℤ} (hk : 0 < k) (hlog : m.log2 = 52)
    (hmax : e ≤ 971) (hvalue : (k : ℚ) = m * 2 ^ e) (h : k < 2 ^ 63) :
    Denotes (Scalar.ofInt (s.apply k)) (s.apply k) := by
  have hm : 0 < m := Nat.pos_of_ne_zero (by rintro rfl; simp at hlog)
  have hunpack := unpack_ofInt s hk hm hlog hmax hvalue
  rw [Denotes, Binary64.exactValue?, hunpack]
  constructor
  · cases s <;> simp [Sign.apply, hvalue]
  · cases s <;> simpa [Sign.apply] using h

/-- The integers of literals that are all integers. -/
theorem integers?_of_denotes {vs : List SignedFloat} {ns : List ℤ}
    (h : List.Forall₂ Denotes vs ns) : Fold.integers? vs = some ns :=
  Word.integers?_eq_some_iff.2 (h.imp fun v n hn => (machineInteger?_eq_some_iff v n).2 hn)

/-- There are no integers where a literal is none. -/
theorem integers?_of_not_denotes {vs : List SignedFloat} (h : ∃ v ∈ vs, ∀ n, ¬v.Denotes n) :
    Fold.integers? vs = none := by
  obtain ⟨v, hv, hnone⟩ := h
  refine Word.integers?_eq_none hv (Option.eq_none_iff_forall_ne_some.2 fun n hn => ?_)
  exact hnone n ((machineInteger?_eq_some_iff v n).1 hn)

end SignedFloat

namespace Expr

/-- The folds of two real literals or more, and of each of their steps on words. Of integers of a
size below `2 ^ 63` the greatest common divisor is always folded, and it is the one of all of
them. The least common multiple is folded where that of no prefix reaches `2 ^ 63`, and then it is
the one of all of them. No step leaves the range of words or divides by zero. Where some literal is
no such integer, both expressions stay as they are. -/
theorem divisors_folded (vs : List SignedFloat) (hlen : 2 ≤ vs.length) :
    let gcd : Expr SignedFloat := .aggregate .gcd (vs.map .number)
    let lcm : Expr SignedFloat := .aggregate .lcm (vs.map .number)
    (∀ ns : List ℤ, List.Forall₂ SignedFloat.Denotes vs ns →
      (∃ g : Int64, Word.gcdOf vs = .ok (some g) ∧
        gcd.simplified = .ok (.number (Scalar.ofInt g.toInt)) ∧ 0 ≤ g.toInt ∧
        (∀ d, d ∣ g.toInt ↔ ∀ n ∈ ns, d ∣ n) ∧ (g.toInt = 0 ↔ ∀ n ∈ ns, n = 0)) ∧
      ((∀ k, ((ns.take k : List ℤ) : Multiset ℤ).lcm < 2 ^ 63) →
        ∃ m : Int64, Word.lcmOf vs = .ok (some m) ∧
          lcm.simplified = .ok (.number (Scalar.ofInt m.toInt)) ∧ 0 ≤ m.toInt ∧
          (∀ d, m.toInt ∣ d ↔ ∀ n ∈ ns, n ∣ d) ∧ (m.toInt = 0 ↔ 0 ∈ ns)) ∧
      ((∃ k, 2 ^ 63 ≤ ((ns.take k : List ℤ) : Multiset ℤ).lcm) →
        Word.lcmOf vs = .ok none ∧ lcm.simplified = .ok lcm)) ∧
    ((∃ v ∈ vs, ∀ n, ¬ v.Denotes n) →
      (Word.gcdOf vs = .ok none ∧ gcd.simplified = .ok gcd) ∧
        Word.lcmOf vs = .ok none ∧ lcm.simplified = .ok lcm) := by
  intro gcd lcm
  constructor
  · intro ns hns
    have hintegers := SignedFloat.integers?_of_denotes hns
    obtain ⟨n, n', rest, rfl⟩ : ∃ n n' rest, ns = n :: n' :: rest := by
      match ns, hns.length_eq ▸ hlen with
      | n :: n' :: rest, _ => exact ⟨n, n', rest, rfl⟩
    obtain ⟨hgcd, hsmall⟩ := Word.gcdOf_of_integers? hintegers
    obtain ⟨hlcm, hsmall'⟩ := Word.lcmOf_of_integers? hintegers
    obtain ⟨hvalue, hsome⟩ := Fold.lcmFrom?_spec_of_small
      (Word.small_of_integers? hintegers n List.mem_cons_self) (n' :: rest)
    refine ⟨⟨_, hgcd, simplified_of_divisorWords.1 hgcd, ?_⟩, fun hbound => ?_, fun hreached => ?_⟩
    · rw [Word.toInt_ofInt hsmall]
      have hnonneg := Fold.gcdFrom_nonneg (n := n) (.inr (List.cons_ne_nil n' rest))
      refine ⟨hnonneg, fun d => Fold.dvd_gcdFrom_iff, ?_⟩
      simpa only [zero_dvd_iff] using Fold.dvd_gcdFrom_iff (d := 0)
    · obtain ⟨m, hm⟩ := Option.isSome_iff_exists.1 (hsome.2 hbound)
      rw [hm] at hlcm
      refine ⟨_, hlcm, simplified_of_divisorWords.2 hlcm, ?_⟩
      have hnonneg := Fold.nonneg_of_lcmFrom? (.inr (List.cons_ne_nil n' rest)) hm
      have hmultiple := hvalue m hm
      rw [abs_of_nonneg hnonneg] at hmultiple
      rw [Word.toInt_ofInt (hsmall' m hm), hmultiple]
      exact ⟨hmultiple ▸ hnonneg, fun d => Multiset.lcm_dvd, Multiset.lcm_eq_zero_iff _⟩
    · have hnone : Fold.lcmFrom? n (n' :: rest) = none := by
        rw [← Option.not_isSome_iff_eq_none, hsome]
        obtain ⟨k, hk⟩ := hreached
        exact fun h => absurd (h k) (not_lt.2 hk)
      rw [hnone] at hlcm
      exact ⟨hlcm, simplified_of_divisorWords.2 hlcm⟩
  · intro h
    obtain ⟨hgcd, hlcm⟩ :=
      Word.divisors_of_integers?_eq_none (SignedFloat.integers?_of_not_denotes h)
    exact ⟨⟨hgcd, simplified_of_divisorWords.1 hgcd⟩, hlcm, simplified_of_divisorWords.2 hlcm⟩

/-- The divisors of `-4` and `6` are folded to `2` and their multiples to `12`. The multiples of
`2 ^ 62` and `3` are not folded, and with a literal that is no number nothing is. -/
theorem divisors_folded_words :
    let v : ℤ → Expr SignedFloat := fun n => .number (Scalar.ofInt n)
    let nan : Expr SignedFloat := .number Scalar.nan
    ((Expr.aggregate .gcd [v (-4), v 6]).simplified = .ok (v 2) ∧
      (Expr.aggregate .lcm [v (-4), v 6]).simplified = .ok (v 12)) ∧
    (Expr.aggregate .lcm [v (2 ^ 62), v 3]).simplified = .ok (.aggregate .lcm [v (2 ^ 62), v 3]) ∧
    (Expr.aggregate .gcd [nan, v 3]).simplified = .ok (.aggregate .gcd [nan, v 3]) := by
  intro v nan
  have h4 : SignedFloat.Denotes (Scalar.ofInt (-4)) (-4) :=
    SignedFloat.denotes_ofInt (k := 4) (m := 2 ^ 52) (e := -50) .negative (by decide) (by decide)
      (by decide) (by norm_num) (by decide)
  have h6 : SignedFloat.Denotes (Scalar.ofInt 6) 6 :=
    SignedFloat.denotes_ofInt (k := 6) (m := 6 * 2 ^ 50) (e := -50) .positive (by decide)
      (by decide) (by decide) (by norm_num) (by decide)
  have h62 : SignedFloat.Denotes (Scalar.ofInt (2 ^ 62)) (2 ^ 62) :=
    SignedFloat.denotes_ofInt (k := 2 ^ 62) (m := 2 ^ 52) (e := 10) .positive (by decide)
      (by decide) (by decide) (by norm_num) (by decide)
  have h3 : SignedFloat.Denotes (Scalar.ofInt 3) 3 :=
    SignedFloat.denotes_ofInt (k := 3) (m := 3 * 2 ^ 51) (e := -51) .positive (by decide)
      (by decide) (by decide) (by norm_num) (by decide)
  refine ⟨?_, ?_, ?_⟩
  · obtain ⟨⟨g, -, hgcd, hg, hdvd, -⟩, hlcm, -⟩ := (divisors_folded
      [Scalar.ofInt (-4), Scalar.ofInt 6] (by decide)).1 [-4, 6] (.cons h4 (.cons h6 .nil))
    obtain ⟨m, -, hlcm, hm, hmultiple, -⟩ := hlcm fun
      | 0 => by decide
      | 1 => by decide
      | k + 2 => by
        rw [List.take_of_length_le (by simp)]
        decide
    have h2 : g.toInt = 2 := by
      have h2dvd := (hdvd 2).2 (by decide)
      have hall := (hdvd g.toInt).1 (dvd_refl _)
      simp only [List.forall_mem_cons] at hall
      have hdvd2 : g.toInt ∣ 6 + -4 := dvd_add hall.2.1 hall.1
      exact Int.dvd_antisymm hg (by decide) hdvd2 h2dvd
    have h12 : m.toInt = 12 := by
      have hdvd12 := (hmultiple 12).2 (by decide)
      have hall := (hmultiple m.toInt).1 (dvd_refl _)
      simp only [List.forall_mem_cons] at hall
      obtain ⟨hfour, hsix, -⟩ := hall
      have hfour' : 4 ∣ m.toInt := Int.neg_dvd.1 hfour
      exact Int.dvd_antisymm hm (by decide) hdvd12 (by omega)
    rw [h2] at hgcd
    rw [h12] at hlcm
    exact ⟨hgcd, hlcm⟩
  · exact (((divisors_folded [Scalar.ofInt (2 ^ 62), Scalar.ofInt 3] (by decide)).1 [2 ^ 62, 3]
      (.cons h62 (.cons h3 .nil))).2.2 ⟨2, by simp; decide⟩).2
  · exact ((divisors_folded [Scalar.nan, Scalar.ofInt 3] (by decide)).2
      ⟨Scalar.nan, List.mem_cons_self, fun n h => by cases h.1⟩).1.2

end Expr

end SymbolicAlgebra
