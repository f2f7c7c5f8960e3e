import CodeIndex.Embedding.Lookup
import CodeIndex.Store.Search

set_option autoImplicit false

namespace CodeIndex

open Float.Model (Format UnpackedFloat)
open Float.Model.UnpackedFloat (Sign)

def Blank (vector : Embedding) : Prop := ∀ x ∈ vector, (x == 0) = true

instance (vector : Embedding) : Decidable (Blank vector) := inferInstanceAs (Decidable (∀ x ∈ vector, (x == 0) = true))

namespace Numeric

def Vanishes : UnpackedFloat → Prop
  | .zero _ => True
  | .notANumber => True
  | _ => False

theorem mul_vanishes_left (spec : Format) (sign : Sign) (x : UnpackedFloat) :
    Vanishes (UnpackedFloat.mul spec (.zero sign) x) := by
  cases x <;> exact True.intro

theorem mul_vanishes_right (spec : Format) (x : UnpackedFloat) (sign : Sign) :
    Vanishes (UnpackedFloat.mul spec x (.zero sign)) := by
  cases x <;> exact True.intro

theorem add_vanishes (spec : Format) (x y : UnpackedFloat) (left : Vanishes x) (right : Vanishes y) :
    Vanishes (UnpackedFloat.add spec x y) := by
  cases x with
  | infinity _ => cases left
  | finite _ _ _ _ => cases left
  | notANumber => exact True.intro
  | zero first =>
      cases y with
      | infinity _ => cases right
      | finite _ _ _ _ => cases right
      | notANumber => exact True.intro
      | zero second => cases first <;> cases second <;> exact True.intro

theorem div_vanishing (spec : Format) (x y : UnpackedFloat) (left : Vanishes x) (right : Vanishes y) :
    UnpackedFloat.div spec x y = .notANumber := by
  cases x with
  | infinity _ => cases left
  | finite _ _ _ _ => cases left
  | notANumber => rfl
  | zero first =>
      cases y with
      | infinity _ => cases right
      | finite _ _ _ _ => cases right
      | notANumber => rfl
      | zero second => rfl

def Void32 (x : Float32) : Prop := ∃ value, Vanishes value ∧ x = .ofModel (.pack value)

def Void64 (x : Float) : Prop := ∃ value, Vanishes value ∧ x = .ofModel (.pack value)

theorem unpack_packed32 (value : UnpackedFloat) (void : Vanishes value) : (Float32.Model.pack value).unpack = value := by
  cases value with
  | infinity _ => cases void
  | finite _ _ _ _ => cases void
  | notANumber => rfl
  | zero sign => cases sign <;> rfl

theorem unpack_packed64 (value : UnpackedFloat) (void : Vanishes value) : (Float.Model.pack value).unpack = value := by
  cases value with
  | infinity _ => cases void
  | finite _ _ _ _ => cases void
  | notANumber => rfl
  | zero sign => cases sign <;> rfl

theorem beq_zero_unpacked (x : Float32) (zero : (x == 0) = true) : ∃ sign, x.toModel.unpack = .zero sign := by
  have compared : (x.toModel.unpack.compare (.zero .positive) == some .eq) = true := zero
  cases unpacked : x.toModel.unpack with
  | zero sign => exact ⟨sign, rfl⟩
  | notANumber =>
      rw [unpacked] at compared
      cases compared
  | infinity sign =>
      rw [unpacked] at compared
      cases sign <;> cases compared
  | finite sign mantissa exponent positive =>
      rw [unpacked] at compared
      cases sign <;> cases compared

theorem mul_void (x y : Float32) (zero : (x == 0) = true ∨ (y == 0) = true) : Void32 (x * y) := by
  refine ⟨UnpackedFloat.mul _ x.toModel.unpack y.toModel.unpack, ?_, rfl⟩
  rcases zero with left | right
  · obtain ⟨sign, unpacked⟩ := beq_zero_unpacked x left
    rw [unpacked]
    exact mul_vanishes_left _ sign _
  · obtain ⟨sign, unpacked⟩ := beq_zero_unpacked y right
    rw [unpacked]
    exact mul_vanishes_right _ _ sign

theorem square_zero (x : Float32) (zero : (x == 0) = true) : x * x = 0 := by
  obtain ⟨sign, unpacked⟩ := beq_zero_unpacked x zero
  change Float32.ofModel (.pack (UnpackedFloat.mul _ x.toModel.unpack x.toModel.unpack)) = _
  rw [unpacked]
  cases sign <;> decide

theorem add_void (x y : Float32) (left : Void32 x) (right : Void32 y) : Void32 (x + y) := by
  obtain ⟨first, firstVoid, rfl⟩ := left
  obtain ⟨second, secondVoid, rfl⟩ := right
  refine ⟨_, add_vanishes .binary32 first second firstVoid secondVoid, ?_⟩
  change Float32.ofModel (.pack (UnpackedFloat.add _ (Float32.Model.pack first).unpack (Float32.Model.pack second).unpack)) = _
  rw [unpack_packed32 first firstVoid, unpack_packed32 second secondVoid]

theorem widen_void (x : Float32) (void : Void32 x) : Void64 (widen x) := by
  obtain ⟨value, valueVoid, rfl⟩ := void
  refine ⟨value, valueVoid, ?_⟩
  cases value with
  | infinity _ => cases valueVoid
  | finite _ _ _ _ => cases valueVoid
  | notANumber => decide
  | zero sign => cases sign <;> decide

theorem wide_mul_void (x y : Float) (zero : x = 0 ∨ y = 0) : Void64 (x * y) := by
  have unpacked : (0 : Float).toModel.unpack = .zero .positive := by rfl
  refine ⟨UnpackedFloat.mul _ x.toModel.unpack y.toModel.unpack, ?_, rfl⟩
  rcases zero with rfl | rfl
  · rw [unpacked]
    exact mul_vanishes_left _ .positive _
  · rw [unpacked]
    exact mul_vanishes_right _ _ .positive

-- Nothing over nothing is not a number, and nothing brings it back.
theorem quotient_missing (x y : Float) (left : Void64 x) (right : Void64 y) : (1 - x / y).isNaN = true := by
  obtain ⟨first, firstVoid, rfl⟩ := left
  obtain ⟨second, secondVoid, rfl⟩ := right
  have quotient : Float.ofModel (.pack first) / Float.ofModel (.pack second) = .ofModel (.pack .notANumber) := by
    change Float.ofModel (.pack (UnpackedFloat.div _ (Float.Model.pack first).unpack (Float.Model.pack second).unpack)) = _
    rw [unpack_packed64 first firstVoid, unpack_packed64 second secondVoid, div_vanishing _ first second firstVoid secondVoid]
  rw [quotient]
  decide

theorem zero_void : Void32 0 := ⟨.zero .positive, True.intro, by decide⟩

theorem add_zeros : (0 : Float32) + 0 = 0 := by decide

theorem root_of_zero : (widen 0).sqrt = 0 := by decide

end Numeric

theorem blank_square_sum (vector : Embedding) (blank : Blank vector) : Hashed.squareSum vector = 0 := by
  rw [Hashed.squareSum]
  induction vector with
  | nil => rfl
  | cons x rest ih =>
      rw [List.foldl_cons, Numeric.square_zero x (blank x List.mem_cons_self), Numeric.add_zeros]
      exact ih fun later member => blank later (List.mem_cons_of_mem _ member)

theorem products_left (a b : Embedding) : (products a b).left = Hashed.squareSum ((a.zip b).map Prod.fst) := by
  rw [Hashed.squareSum, List.foldl_map]
  exact (List.foldl_hom Products.left fun _ _ => rfl).symm

theorem products_right (a b : Embedding) : (products a b).right = Hashed.squareSum ((a.zip b).map Prod.snd) := by
  rw [Hashed.squareSum, List.foldl_map]
  exact (List.foldl_hom Products.right fun _ _ => rfl).symm

theorem dot_void (pairs : List (Float32 × Float32)) (sums : Products) (start : Numeric.Void32 sums.dot)
    (zero : ∀ pair ∈ pairs, (pair.1 == 0) = true ∨ (pair.2 == 0) = true) :
    Numeric.Void32 (pairs.foldl (fun sums (x, y) => sums.add x y) sums).dot := by
  induction pairs generalizing sums with
  | nil => exact start
  | cons pair rest ih =>
      have product := Numeric.mul_void pair.1 pair.2 (zero pair List.mem_cons_self)
      exact ih (sums.add pair.1 pair.2) (Numeric.add_void _ _ start product)
        fun later member => zero later (List.mem_cons_of_mem _ member)

theorem distance_missing (a b : Embedding) (dot : Numeric.Void32 (products a b).dot)
    (zero : (products a b).left = 0 ∨ (products a b).right = 0) : cosineDistance a b = none := by
  have lengths : Numeric.Void64
      ((Numeric.widen (products a b).left).sqrt * (Numeric.widen (products a b).right).sqrt) := by
    apply Numeric.wide_mul_void
    rcases zero with left | right
    · exact .inl (by rw [left, Numeric.root_of_zero])
    · exact .inr (by rw [right, Numeric.root_of_zero])
  rw [cosineDistance]
  exact if_pos (Numeric.quotient_missing _ _ (Numeric.widen_void _ dot) lengths)

theorem blank_distance (a b : Embedding) (blank : Blank a ∨ Blank b) : cosineDistance a b = none := by
  have zero : ∀ pair ∈ a.zip b, (pair.1 == 0) = true ∨ (pair.2 == 0) = true := by
    intro pair member
    obtain ⟨first, second⟩ := List.of_mem_zip member
    exact blank.imp (fun left => left pair.1 first) (fun right => right pair.2 second)
  apply distance_missing a b (dot_void _ _ Numeric.zero_void zero)
  rw [products_left, products_right]
  refine blank.imp (fun left => blank_square_sum _ ?_) (fun right => blank_square_sum _ ?_)
  · intro x member
    obtain ⟨pair, listed, rfl⟩ := List.mem_map.mp member
    exact left pair.1 (List.of_mem_zip listed).1
  · intro x member
    obtain ⟨pair, listed, rfl⟩ := List.mem_map.mp member
    exact right pair.2 (List.of_mem_zip listed).2

theorem blank_unscaled (vector : Embedding) (blank : Blank vector) :
    unitLength vector = vector ∧ Hashed.scale vector = vector := by
  have none := blank_square_sum vector blank
  constructor
  · rw [unitLength, none]
    exact if_pos (by decide)
  · rw [Hashed.scale, none]
    exact if_neg (by decide)

end CodeIndex
