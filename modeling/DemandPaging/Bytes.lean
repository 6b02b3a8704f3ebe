/-!
# Byte buffers

A buffer is a list of bytes of fixed length. Writing into a buffer never changes its length:
bytes that would fall behind its end are dropped.
-/

namespace DemandPaging

abbrev Bytes := List UInt8

namespace Bytes

def filled (n : Nat) (b : UInt8) : Bytes :=
  List.replicate n b

def overlay (buffer : Bytes) (start : Nat) (data : Bytes) : Bytes :=
  (buffer.take start ++ data ++ buffer.drop (start + data.length)).take buffer.length

@[simp]
theorem length_filled (n : Nat) (b : UInt8) : (filled n b).length = n :=
  List.length_replicate

theorem length_overlay (buffer : Bytes) (start : Nat) (data : Bytes) :
    (overlay buffer start data).length = buffer.length := by
  simp only [overlay, List.length_take, List.length_append, List.length_drop]
  omega

/-- Inside the buffer, a position covered by `data` has its byte and any other keeps its own. -/
theorem getElem?_overlay (buffer : Bytes) (start : Nat) (data : Bytes) (i : Nat)
    (hstart : start ≤ buffer.length) (hi : i < buffer.length) :
    (overlay buffer start data)[i]? =
      if start ≤ i ∧ i < start + data.length then data[i - start]? else buffer[i]? := by
  unfold overlay
  rw [List.getElem?_take_of_lt hi, List.append_assoc]
  have hlen : (buffer.take start).length = start := by
    rw [List.length_take]
    omega
  by_cases hlow : i < start
  · rw [List.getElem?_append_left (by omega), List.getElem?_take_of_lt hlow,
      if_neg (by omega)]
  · rw [List.getElem?_append_right (by omega), hlen]
    by_cases hin : i < start + data.length
    · rw [List.getElem?_append_left (by omega), if_pos (by omega)]
    · rw [List.getElem?_append_right (by omega), if_neg (by omega), List.getElem?_drop]
      congr 1
      omega

theorem overlay_nil (buffer : Bytes) (start : Nat) : overlay buffer start [] = buffer := by
  simp [overlay]

theorem take_overlay_filled (buffer : Bytes) (n : Nat) (b : UInt8) :
    (overlay buffer 0 (filled n b)).take n = filled (min n buffer.length) b := by
  have hle : min n buffer.length ≤ (filled n b).length := by
    rw [length_filled]
    exact Nat.min_le_left n buffer.length
  rw [overlay, List.take_zero, List.nil_append, List.take_take, List.take_append_of_le_length hle,
    filled, filled, List.take_replicate, Nat.min_eq_left (Nat.min_le_left n buffer.length)]

end Bytes
end DemandPaging
