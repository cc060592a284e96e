/-
Module: Duplex.Proofs.Equality
Purpose: Equality of values is symmetric and transitive, part by part.  It is not reflexive: what is
  not a number equals nothing, and neither does a value that holds it.
Main exports: Decimal.Double.same_trans, Value.same_symm, Value.same_trans
-/
import Duplex.Value.Basic

namespace Duplex

namespace Decimal.Double

theorem same_comm (x y : Double) : x.same y = y.same x := by
  simp [same, Bool.and_comm, Bool.beq_comm (a := x.bits)]

/-- Numbers that are equal have the same bits, or are both a zero. -/
theorem same_iff {x y : Double} :
    x.same y = true ↔
      (x.isNaN = false ∧ y.isNaN = false) ∧ (x = y ∨ x.isZero = true ∧ y.isZero = true) := by
  cases x
  cases y
  simp [same]

theorem same_trans {x y z : Double} (first : x.same y = true) (second : y.same z = true) :
    x.same z = true := by
  rw [same_iff] at first second ⊢
  rcases first with ⟨⟨numberX, _⟩, rfl | ⟨zeroX, zeroY⟩⟩
  · exact second
  · rcases second with ⟨⟨_, numberZ⟩, rfl | ⟨_, zeroZ⟩⟩
    · exact ⟨⟨numberX, numberZ⟩, .inr ⟨zeroX, zeroY⟩⟩
    · exact ⟨⟨numberX, numberZ⟩, .inr ⟨zeroX, zeroZ⟩⟩

end Decimal.Double

namespace Value

/-! ### Symmetry -/

mutual

theorem same_symm : (v w : Value) → same v w = true → same w v = true
  | .char _, w, h => by cases w <;> simp_all [same]
  | .text _, w, h => by cases w <;> simp_all [same]
  | .int _, w, h => by cases w <;> simp_all [same]
  | .bool _, w, h => by cases w <;> simp_all [same]
  | .big _, w, h => by cases w <;> simp_all [same]
  | .double _, w, h => by cases w <;> simp_all [same, Decimal.Double.same_comm]
  | .list vs, w, h => by
      cases w <;> simp only [same, Bool.false_eq_true] at h ⊢
      exact sameAll_symm vs _ h
  | .tuple vs, w, h => by
      cases w <;> simp only [same, Bool.false_eq_true] at h ⊢
      exact sameAll_symm vs _ h
  | .map vs, w, h => by
      cases w <;> simp only [same, Bool.false_eq_true] at h ⊢
      exact sameEntries_symm vs _ h
  | .root vs, w, h => by
      cases w <;> simp only [same, Bool.false_eq_true] at h ⊢
      exact sameAll_symm vs _ h
  | .nest item tail vs, w, h => by
      cases w <;> simp only [same, Bool.false_eq_true, Bool.and_eq_true] at h ⊢
      exact ⟨⟨same_symm item _ h.1.1, same_symm tail _ h.1.2⟩, sameAll_symm vs _ h.2⟩
  | .term item, w, h => by
      cases w <;> simp only [same, Bool.false_eq_true] at h ⊢
      exact same_symm item _ h

theorem sameAll_symm : (vs ws : List Value) → sameAll vs ws = true → sameAll ws vs = true
  | [], ws, h => by cases ws <;> simp_all [sameAll]
  | v :: vs, ws, h => by
      cases ws <;> simp only [sameAll, Bool.false_eq_true, Bool.and_eq_true] at h ⊢
      exact ⟨same_symm v _ h.1, sameAll_symm vs _ h.2⟩

theorem sameEntries_symm :
    (vs ws : List (Token × Value)) → sameEntries vs ws = true → sameEntries ws vs = true
  | [], ws, h => by cases ws <;> simp_all [sameEntries]
  | (k, v) :: vs, ws, h => by
      cases ws <;> simp only [sameEntries, Bool.false_eq_true, Bool.and_eq_true, beq_iff_eq] at h ⊢
      exact ⟨⟨h.1.1.symm, same_symm v _ h.1.2⟩, sameEntries_symm vs _ h.2⟩

end

/-! ### Transitivity -/

mutual

theorem same_trans : (u v w : Value) → same u v = true → same v w = true → same u w = true
  | .char _, v, w, h, k => by cases v <;> simp_all [same]
  | .text _, v, w, h, k => by cases v <;> simp_all [same]
  | .int _, v, w, h, k => by cases v <;> simp_all [same]
  | .bool _, v, w, h, k => by cases v <;> simp_all [same]
  | .big _, v, w, h, k => by cases v <;> simp_all [same]
  | .double _, v, w, h, k => by
      cases v <;> simp only [same, Bool.false_eq_true] at h
      cases w <;> simp only [same, Bool.false_eq_true] at k ⊢
      exact Decimal.Double.same_trans h k
  | .list us, v, w, h, k => by
      cases v <;> simp only [same, Bool.false_eq_true] at h
      cases w <;> simp only [same, Bool.false_eq_true] at k ⊢
      exact sameAll_trans us _ _ h k
  | .tuple us, v, w, h, k => by
      cases v <;> simp only [same, Bool.false_eq_true] at h
      cases w <;> simp only [same, Bool.false_eq_true] at k ⊢
      exact sameAll_trans us _ _ h k
  | .map us, v, w, h, k => by
      cases v <;> simp only [same, Bool.false_eq_true] at h
      cases w <;> simp only [same, Bool.false_eq_true] at k ⊢
      exact sameEntries_trans us _ _ h k
  | .root us, v, w, h, k => by
      cases v <;> simp only [same, Bool.false_eq_true] at h
      cases w <;> simp only [same, Bool.false_eq_true] at k ⊢
      exact sameAll_trans us _ _ h k
  | .nest item tail us, v, w, h, k => by
      cases v <;> simp only [same, Bool.false_eq_true, Bool.and_eq_true] at h
      cases w <;> simp only [same, Bool.false_eq_true, Bool.and_eq_true] at k ⊢
      exact ⟨⟨same_trans item _ _ h.1.1 k.1.1, same_trans tail _ _ h.1.2 k.1.2⟩,
        sameAll_trans us _ _ h.2 k.2⟩
  | .term item, v, w, h, k => by
      cases v <;> simp only [same, Bool.false_eq_true] at h
      cases w <;> simp only [same, Bool.false_eq_true] at k ⊢
      exact same_trans item _ _ h k

theorem sameAll_trans :
    (us vs ws : List Value) → sameAll us vs = true → sameAll vs ws = true → sameAll us ws = true
  | [], vs, ws, h, k => by cases vs <;> simp_all [sameAll]
  | u :: us, vs, ws, h, k => by
      cases vs <;> simp only [sameAll, Bool.false_eq_true, Bool.and_eq_true] at h
      cases ws <;> simp only [sameAll, Bool.false_eq_true, Bool.and_eq_true] at k ⊢
      exact ⟨same_trans u _ _ h.1 k.1, sameAll_trans us _ _ h.2 k.2⟩

theorem sameEntries_trans :
    (us vs ws : List (Token × Value)) → sameEntries us vs = true → sameEntries vs ws = true →
      sameEntries us ws = true
  | [], vs, ws, h, k => by cases vs <;> simp_all [sameEntries]
  | (l, u) :: us, vs, ws, h, k => by
      cases vs <;> simp only [sameEntries, Bool.false_eq_true, Bool.and_eq_true, beq_iff_eq] at h
      cases ws <;> simp only [sameEntries, Bool.false_eq_true, Bool.and_eq_true, beq_iff_eq] at k ⊢
      exact ⟨⟨h.1.1.trans k.1.1, same_trans u _ _ h.1.2 k.1.2⟩, sameEntries_trans us _ _ h.2 k.2⟩

end

instance : PartialEquivBEq Value where
  symm := same_symm _ _
  trans := same_trans _ _ _

end Value

end Duplex
