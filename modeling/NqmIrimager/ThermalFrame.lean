import NqmIrimager.IRImagerRealImpl

/-!
# `NqmIrimager.ThermalFrame`: the pixels of a frame

`IRImager::ThermalFrame` of `irimager_class.hpp`, a row-major matrix of `uint16_t`, and the
part of `onThermalFrame` that `NqmIrimager.IRImagerRealImpl` leaves out: how the array of the SDK
becomes a matrix. There a stored frame is the number of a raw frame; `ThermalData.frame`
is the frame that number stands for.
-/

set_option autoImplicit false

namespace NqmIrimager

/-- Row-major order: the cell of element `(i, j)` lies within the array. -/
theorem cell_lt {rows cols i j : Nat} (hi : i < rows) (hj : j < cols) :
    i * cols + j < rows * cols := by
  calc i * cols + j
      < i * cols + cols := Nat.add_lt_add_left hj _
    _ = (i + 1) * cols := (Nat.succ_mul i cols).symm
    _ ≤ rows * cols := Nat.mul_le_mul_right cols hi

/-- `IRImager::ThermalFrame`, in row-major order. -/
structure ThermalFrame where
  rows : Nat
  cols : Nat
  data : Vector UInt16 (rows * cols)

namespace ThermalFrame

/-- `frame(i, j)`. -/
def element (f : ThermalFrame) (i j : Nat) (hi : i < f.rows) (hj : j < f.cols) : UInt16 :=
  f.data.get ⟨i * f.cols + j, cell_lt hi hj⟩

/-- A copy of `Eigen::Map<ThermalFrame>(thermal, rows, cols)`. The map is row-major too, so
the copy has the cells of the array in their order. -/
def map (rows cols : Nat) (thermal : Vector UInt16 (rows * cols)) : ThermalFrame where
  rows := rows
  cols := cols
  data := thermal

end ThermalFrame

/-- The frame `onThermalFrame(thermal, w, h, ..)` stores. -/
def thermalFrameOf (w h : Nat) (thermal : Vector UInt16 (w * h)) : ThermalFrame :=
  .map w h thermal

/-- The frame in the slot, when `thermal` gives the array of each picture. -/
def ThermalData.frame {w h : Nat} (thermal : RawFrame → Vector UInt16 (w * h)) :
    ThermalData → Option ThermalFrame
  | .thermalFrame picture => some (thermalFrameOf w h (thermal picture))
  | .badFrame _ => none
  | .null => none

/-- A callback stores the frame of its picture when the flag is open, and none when it is
closed. -/
theorem frame_of_capture {w h : Nat} (thermal : RawFrame → Vector UInt16 (w * h)) (c : Capture) :
    c.data.frame thermal
      = if c.flagOpen then some (thermalFrameOf w h (thermal c.picture)) else none := by
  unfold Capture.data
  split <;> rfl

end NqmIrimager
