import NqmIrimager.ThermalFrame

/-!
# `NqmIrimager.Proofs.ThermalPixels`: where the pixels of a frame end up

The comment in `onThermalFrame` takes the array of the SDK for a row-major picture: the
pixel in column `x` and row `y` is `thermal[y * w + x]`. The map it makes has `w` rows and
`h` columns, so element `(x, y)` is `thermal[x * h + y]`. These are different cells, unless
the picture has one row or one column.

`showsPicture_iff` says for which arrays the frame shows the picture, or its transpose. A
square picture is its own map. Any other array is shown exactly when it does not change
under `k ↦ k * h % (w * h - 1)`, the permutation of an in-place transposition.
-/

set_option autoImplicit false

namespace NqmIrimager

variable {w h : Nat}

/-- The pixel in column `x` and row `y` of a row-major picture. -/
def pixel (thermal : Vector UInt16 (w * h)) (x y : Nat) (hx : x < w) (hy : y < h) : UInt16 :=
  thermal.get ⟨y * w + x, Nat.mul_comm h w ▸ cell_lt hy hx⟩

/-- The frame shows the picture in its own shape, or transposed. -/
def ShowsPicture (f : ThermalFrame) (thermal : Vector UInt16 (w * h)) : Prop :=
  (f.rows = h ∧ f.cols = w ∧ ∀ x y (hx : x < w) (hy : y < h) (hi : y < f.rows) (hj : x < f.cols),
      f.element y x hi hj = pixel thermal x y hx hy) ∨
    (f.rows = w ∧ f.cols = h ∧ ∀ x y (hx : x < w) (hy : y < h) (hi : x < f.rows) (hj : y < f.cols),
      f.element x y hi hj = pixel thermal x y hx hy)

/-- The array does not change under the permutation of an in-place transposition, which
leaves the last cell alone. -/
def FixedByTransposition (thermal : Vector UInt16 (w * h)) : Prop :=
  ∀ k (hk : k < w * h - 1),
    thermal.get ⟨k * h % (w * h - 1), Nat.lt_of_lt_of_le (Nat.mod_lt _ (by omega)) (Nat.sub_le _ _)⟩
      = thermal.get ⟨k, Nat.lt_of_lt_of_le hk (Nat.sub_le _ _)⟩

/-! ### The two index maps -/

/-- The last cell is that of the last element. -/
theorem eq_last_of_cell {rows cols i j : Nat} (hi : i < rows) (hj : j < cols)
    (hlast : i * cols + j = rows * cols - 1) : i + 1 = rows ∧ j + 1 = cols := by
  rcases Nat.lt_or_ge (i + 1) rows with hlt | hge
  · -- There is a whole row behind it.
    have hnext : (i + 1) * cols + j < rows * cols := cell_lt hlt hj
    rw [Nat.succ_mul] at hnext
    omega
  · have hrows : rows = i + 1 := by omega
    subst hrows
    rw [Nat.succ_mul] at hlast
    omega

/-- The cell of element `(x, y)` of the frame, from the cell of the pixel. -/
theorem transposed_cell {x y : Nat} (hx : x < w) (hy : y < h) (hinner : y * w + x < w * h - 1) :
    (y * w + x) * h % (w * h - 1) = x * h + y := by
  have hcell : x * h + y < w * h := cell_lt hx hy
  have hsplit : (y * w + x) * h = x * h + y + (w * h - 1) * y := by
    have hturn : (w * h - 1) * y + y = y * w * h := by
      rw [← Nat.succ_mul, Nat.succ_eq_add_one, Nat.sub_add_cancel (by omega), Nat.mul_comm,
        Nat.mul_assoc]
    rw [Nat.add_mul]
    omega
  -- The last cell is the last one in both orders, so neither is it.
  have hne : x * h + y ≠ w * h - 1 := by
    intro hlast
    obtain ⟨rfl, rfl⟩ := eq_last_of_cell hx hy hlast
    rw [Nat.mul_comm (x + 1), Nat.succ_mul, Nat.mul_succ] at hinner
    omega
  rw [hsplit, Nat.add_mul_mod_self_left, Nat.mod_eq_of_lt (by omega)]

/-- The two cells of each pixel hold the same exactly when the array does not change under
the permutation. -/
theorem forall_cells_iff (thermal : Vector UInt16 (w * h)) :
    (∀ x y (hx : x < w) (hy : y < h),
        thermal.get ⟨x * h + y, cell_lt hx hy⟩ = pixel thermal x y hx hy) ↔
      FixedByTransposition thermal := by
  constructor
  · intro hcells k hk
    have hw : 0 < w := Nat.pos_of_ne_zero (by rintro rfl; simp at hk)
    -- Cell `k` is that of the pixel in column `k % w` and row `k / w`.
    have hx : k % w < w := Nat.mod_lt k hw
    have hy : k / w < h := Nat.div_lt_of_lt_mul (by omega)
    have hk' : k / w * w + k % w = k := Nat.div_add_mod' k w
    have hmove := transposed_cell hx hy (by omega)
    rw [hk'] at hmove
    have hpixel := hcells (k % w) (k / w) hx hy
    simp only [pixel, hk'] at hpixel
    simp only [hmove]
    exact hpixel
  · intro hmoves x y hx hy
    have hcell : y * w + x < w * h := Nat.mul_comm h w ▸ cell_lt hy hx
    by_cases hinner : y * w + x < w * h - 1
    · have hmove := hmoves _ hinner
      simp only [transposed_cell hx hy hinner] at hmove
      exact hmove
    · -- The last pixel is in the last cell, which is its own.
      obtain ⟨rfl, rfl⟩ := eq_last_of_cell hy hx (by rw [Nat.mul_comm h w]; omega)
      have hsame : x * (y + 1) + y = y * (x + 1) + x := by
        rw [Nat.mul_succ, Nat.mul_succ, Nat.mul_comm]
        omega
      simp only [pixel, hsame]

/-! ### Which pictures are kept -/

/-- A square picture is shown, as it is. -/
theorem showsPicture_of_square (thermal : Vector UInt16 (w * h)) (hsquare : w = h) :
    ShowsPicture (thermalFrameOf w h thermal) thermal := by
  subst hsquare
  exact Or.inl ⟨rfl, rfl, fun x y hx hy hi hj => rfl⟩

/-- Any other picture can be shown transposed only, pixel by pixel. -/
theorem showsPicture_of_ne (thermal : Vector UInt16 (w * h)) (hne : w ≠ h) :
    ShowsPicture (thermalFrameOf w h thermal) thermal ↔
      ∀ x y (hx : x < w) (hy : y < h),
        thermal.get ⟨x * h + y, cell_lt hx hy⟩ = pixel thermal x y hx hy := by
  constructor
  · rintro (⟨hrows, -⟩ | ⟨-, -, hcells⟩)
    · exact absurd hrows hne
    · exact fun x y hx hy => hcells x y hx hy hx hy
  · intro hcells
    exact Or.inr ⟨rfl, rfl, fun x y hx hy hi hj => hcells x y hx hy⟩

/-- The picture whose only non-zero pixel is the second one of the first row. -/
def onePixel (n : Nat) : Vector UInt16 n := Vector.ofFn fun k => if k.val = 1 then 1 else 0

/-- Its pixels. -/
theorem get_onePixel {n : Nat} (k : Fin n) : (onePixel n).get k = if k.val = 1 then 1 else 0 := by
  simp only [onePixel, Vector.get, Vector.toArray_ofFn, Array.getElem_ofFn]
  rfl

/-- With two rows and two columns or more, that pixel moves, unless the picture is
square. -/
theorem not_showsPicture_onePixel (hw : 2 ≤ w) (hh : 2 ≤ h) (hne : w ≠ h) :
    ¬ ShowsPicture (thermalFrameOf w h (onePixel (w * h))) (onePixel (w * h)) := by
  rw [showsPicture_of_ne _ hne]
  intro hcells
  -- Element `(1, 0)` is cell `h`, and the pixel in column `1` and row `0` is cell `1`.
  have hpixel := hcells 1 0 (by omega) (by omega)
  rw [pixel, get_onePixel, get_onePixel, if_neg (by show ¬ 1 * h + 0 = 1; omega),
    if_pos (by show 0 * w + 1 = 1; omega)] at hpixel
  exact absurd hpixel (by decide)

/-- A picture of one row or one column is the same sequence of cells in both orders. -/
theorem showsPicture_of_line (thermal : Vector UInt16 (w * h)) (hline : w = 1 ∨ h = 1) :
    ShowsPicture (thermalFrameOf w h thermal) thermal := by
  by_cases hsquare : w = h
  · exact showsPicture_of_square thermal hsquare
  · rw [showsPicture_of_ne thermal hsquare]
    intro x y hx hy
    have hsame : x * h + y = y * w + x := by
      rcases hline with rfl | rfl
      · rw [show x = 0 by omega]
        omega
      · rw [show y = 0 by omega]
        omega
    simp only [pixel, hsame]

/-- The frame that is stored shows the picture, for every picture of a size exactly when
it has one column, one row or as many columns as rows, and for a given picture exactly
when it is square or fixed by the transposition. -/
theorem showsPicture_iff (hw : 1 ≤ w) (hh : 1 ≤ h) :
    ((∀ thermal : Vector UInt16 (w * h), ShowsPicture (thermalFrameOf w h thermal) thermal) ↔
        w = 1 ∨ h = 1 ∨ w = h) ∧
      ∀ thermal : Vector UInt16 (w * h), ShowsPicture (thermalFrameOf w h thermal) thermal ↔
        w = h ∨ FixedByTransposition thermal := by
  constructor
  · constructor
    · intro hall
      by_contra hsize
      exact not_showsPicture_onePixel (by omega) (by omega) (by omega) (hall _)
    · intro hsize thermal
      by_cases hsquare : w = h
      · exact showsPicture_of_square thermal hsquare
      · exact showsPicture_of_line thermal (by omega)
  · intro thermal
    by_cases hsquare : w = h
    · exact iff_of_true (showsPicture_of_square thermal hsquare) (Or.inl hsquare)
    · rw [showsPicture_of_ne thermal hsquare, forall_cells_iff]
      exact (or_iff_right hsquare).symm

/-- Pictures of three columns and two rows. -/
theorem showsPicture_iff_three_by_two :
    ((∀ thermal : Vector UInt16 (3 * 2), ShowsPicture (thermalFrameOf 3 2 thermal) thermal) ↔
        3 = 1 ∨ 2 = 1 ∨ 3 = 2) ∧
      ∀ thermal : Vector UInt16 (3 * 2), ShowsPicture (thermalFrameOf 3 2 thermal) thermal ↔
        3 = 2 ∨ FixedByTransposition thermal :=
  showsPicture_iff (by decide) (by decide)

/-- Three columns and two rows, each pixel its own number: the frame has three rows and
two columns, and element `(1, 0)` is pixel `2`, not pixel `1`. -/
theorem three_by_two_scrambled :
    (thermalFrameOf 3 2 #v[0, 1, 2, 3, 4, 5]).rows = 3 ∧
      (thermalFrameOf 3 2 #v[0, 1, 2, 3, 4, 5]).cols = 2 ∧
      (thermalFrameOf 3 2 #v[0, 1, 2, 3, 4, 5]).element 1 0 (by decide) (by decide) = 2 ∧
      pixel (w := 3) (h := 2) #v[0, 1, 2, 3, 4, 5] 1 0 (by decide) (by decide) = 1 ∧
      ¬ ShowsPicture (w := 3) (h := 2) (thermalFrameOf 3 2 #v[0, 1, 2, 3, 4, 5])
        #v[0, 1, 2, 3, 4, 5] := by
  refine ⟨rfl, rfl, by decide, by decide, ?_⟩
  rw [showsPicture_of_ne _ (by decide)]
  intro hcells
  exact absurd (hcells 1 0 (by decide) (by decide)) (by decide)

end NqmIrimager
