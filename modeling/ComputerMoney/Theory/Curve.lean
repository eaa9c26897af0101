/-
# Theory.Curve -- keys over a group with x-only points

A group of points over a field of scalars, with what a signature scheme on a curve adds:
a generator, the x-coordinate of a point, the parity of the other coordinate, and the
lift of an x-coordinate to the point whose parity is even.  A secret key is a nonzero
scalar and a public key a nonzero point, so no operation can hand out a zero: adding,
multiplying and combining fail where the result would be one.

A group of prime order `n` is such a space over the integers modulo `n`.

The two facts everything rests on: tweaking and combining commute with taking the public
key (`addTweak_public`, `mulTweak_public`), and normalizing a secret key to even parity
makes its public key the lift of its own x-coordinate (`normalize_public`).
-/
import Mathlib.Algebra.Module.Torsion.Field
import Mathlib.Tactic.Ring

namespace ComputerMoney.Theory

set_option autoImplicit false

/-- A nonzero scalar. -/
abbrev Secret (F : Type) [Zero F] := { s : F // s ≠ 0 }

/-- A nonzero point. -/
abbrev Point (G : Type) [Zero G] := { P : G // P ≠ 0 }

section

variable (G X : Type) [AddCommGroup G]

/-- Points with an x-coordinate and a parity. -/
structure Curve where
  gen : G
  gen_ne_zero : gen ≠ 0
  xOnly : G → X
  odd : G → Bool
  /-- The point of even parity with this x-coordinate. -/
  lift : X → Point G
  lift_xOnly : ∀ P : G, P ≠ 0 → (lift (xOnly P)).1 = if odd P then -P else P

end

namespace Curve

variable {F G X : Type} [Field F] [AddCommGroup G] [Module F G] (curve : Curve G X)

def publicKey (s : Secret F) : Point G :=
  ⟨s.1 • curve.gen, smul_ne_zero s.2 curve.gen_ne_zero⟩

/-- Negate a secret key whose point is odd. -/
def normalize (s : Secret F) : Secret F :=
  if curve.odd (curve.publicKey s).1 then ⟨-s.1, neg_ne_zero.2 s.2⟩ else s

/-- The public key of a normalized secret key is the lift of the key's x-coordinate. -/
theorem normalize_public (s : Secret F) :
    curve.publicKey (curve.normalize s) = curve.lift (curve.xOnly (curve.publicKey s).1) := by
  apply Subtype.ext
  rw [curve.lift_xOnly _ (curve.publicKey s).2]
  by_cases odd : curve.odd (curve.publicKey s).1
  · rw [normalize, if_pos odd, if_pos odd]
    exact neg_smul ..
  · rw [normalize, if_neg odd, if_neg odd]

end Curve

/-! ## Operations that can fail -/

section

variable {F G : Type} [Field F] [AddCommGroup G] [Module F G] [DecidableEq F] [DecidableEq G]

def addTweak (s : Secret F) (t : F) : Option (Secret F) :=
  if nonzero : s.1 + t ≠ 0 then some ⟨s.1 + t, nonzero⟩ else none

def mulTweak (s : Secret F) (t : F) : Option (Secret F) :=
  if nonzero : t ≠ 0 then some ⟨s.1 * t, mul_ne_zero s.2 nonzero⟩ else none

def combine (P Q : Point G) : Option (Point G) :=
  if nonzero : P.1 + Q.1 ≠ 0 then some ⟨P.1 + Q.1, nonzero⟩ else none

def mulPoint (P : Point G) (t : F) : Option (Point G) :=
  if nonzero : t ≠ 0 then some ⟨t • P.1, smul_ne_zero nonzero P.2⟩ else none

variable {X : Type} (curve : Curve G X)

/-- Adding secret keys is combining their public keys. -/
theorem addTweak_public {s t sum : Secret F} (added : addTweak s t.1 = some sum) :
    combine (curve.publicKey s) (curve.publicKey t) = some (curve.publicKey sum) := by
  unfold addTweak at added
  split at added
  · rename_i nonzero
    obtain rfl := Option.some.inj added
    have point : s.1 • curve.gen + t.1 • curve.gen = (s.1 + t.1) • curve.gen := (add_smul ..).symm
    have apart : s.1 • curve.gen + t.1 • curve.gen ≠ 0 :=
      point ▸ smul_ne_zero nonzero curve.gen_ne_zero
    exact (dif_pos apart).trans (congrArg some (Subtype.ext point))
  · cases added

/-- And back: points that combine are those of secret keys that add. -/
theorem combine_secret {s t : Secret F} {P : Point G}
    (combined : combine (curve.publicKey s) (curve.publicKey t) = some P) :
    ∃ sum, addTweak s t.1 = some sum ∧ curve.publicKey sum = P := by
  unfold combine at combined
  split at combined
  · rename_i apart
    have point : s.1 • curve.gen + t.1 • curve.gen = (s.1 + t.1) • curve.gen := (add_smul ..).symm
    have nonzero : s.1 + t.1 ≠ 0 := by
      intro zero
      refine apart ?_
      show s.1 • curve.gen + t.1 • curve.gen = 0
      rw [point, zero, zero_smul]
    exact ⟨⟨s.1 + t.1, nonzero⟩, dif_pos nonzero,
      (Subtype.ext point.symm).trans (Option.some.inj combined)⟩
  · cases combined

omit [DecidableEq G] in
/-- The exchange: either side's secret times the other side's point is one point,
however a common factor is spread. -/
theorem exchange {a b pa pb : Secret F} {t : F} {P : Point G}
    (left : mulTweak a t = some pa) (right : mulTweak b t = some pb)
    (shared : mulPoint (curve.publicKey b) pa.1 = some P) :
    mulPoint (curve.publicKey a) pb.1 = some P := by
  unfold mulTweak at left right
  split at left
  · rename_i nonzero
    rw [dif_pos nonzero] at right
    obtain rfl := Option.some.inj left
    obtain rfl := Option.some.inj right
    unfold mulPoint at shared ⊢
    rw [dif_pos (mul_ne_zero a.2 nonzero)] at shared
    rw [dif_pos (mul_ne_zero b.2 nonzero)]
    rw [← shared]
    refine congrArg some (Subtype.ext ?_)
    show (b.1 * t) • a.1 • curve.gen = (a.1 * t) • b.1 • curve.gen
    rw [smul_smul, smul_smul]
    congr 1
    ring
  · cases left

end

end ComputerMoney.Theory
