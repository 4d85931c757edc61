import Lokinet.Lib.Bytes

/-!
A ring buffer kept as a list of cells. The cells from `pos` on, wrapping at the end, are
`buf.rotate pos`, so the contents of a ring with its first cell at `pos` are a prefix of that
rotation. `write` copies past the end and continues at the front; `slices` are the one or two
spans that hold the `len` cells from `pos`.
-/

namespace Ring

open Window

variable {α : Type}

/-- Copy `data` into `buf` from `pos`, continuing at index 0 with what does not fit before the
end. -/
def write (buf : List α) (pos : Nat) (data : List α) : List α :=
  if pos + data.length > buf.length then
    paste (paste buf pos (data.take (buf.length - pos))) 0 (data.drop (buf.length - pos))
  else paste buf pos data

/-- The spans that hold the `len` cells from `pos`: one, or the rest of the buffer and then
a prefix of it. -/
def slices (buf : List α) (pos len : Nat) : List (List α) :=
  if pos + len ≤ buf.length then [(buf.drop pos).take len]
  else [buf.drop pos, buf.take ((pos + len) % buf.length)]

theorem length_write {buf data : List α} {pos : Nat} (hpos : pos ≤ buf.length)
    (hlen : data.length ≤ buf.length) : (write buf pos data).length = buf.length := by
  unfold write
  split
  · have hin : (paste buf pos (data.take (buf.length - pos))).length = buf.length :=
      length_paste (by simp; omega)
    rw [length_paste (by simp; omega), hin]
  · exact length_paste (by omega)

/-- Seen from where it starts, a wrapped copy is a copy at the front. -/
theorem rotate_write {buf data : List α} {pos : Nat} (hpos : pos < buf.length)
    (hlen : data.length ≤ buf.length) :
    (write buf pos data).rotate pos = paste (buf.rotate pos) 0 data := by
  have hrot : buf.rotate pos = buf.drop pos ++ buf.take pos := List.rotate_eq_drop_append_take hpos.le
  have hfront : paste (buf.rotate pos) 0 data =
      data ++ (buf.drop pos ++ buf.take pos).drop data.length := by
    simp [paste, hrot]
  unfold write
  split
  · -- the copy wraps: its first `k` bytes fill the end, the rest go to the front
    rename_i hwrap
    set k := buf.length - pos with hk
    have hd1 : (data.take k).length = k := by simp; omega
    have hin : paste buf pos (data.take k) = buf.take pos ++ data.take k := by
      simp only [paste, hd1, show pos + k = buf.length by omega, List.drop_length, List.append_nil]
    have hout : paste (buf.take pos ++ data.take k) 0 (data.drop k) =
        (data.drop k ++ (buf.take pos).drop (data.length - k)) ++ data.take k := by
      simp only [paste, List.take_zero, List.nil_append, Nat.zero_add, List.length_drop]
      rw [List.drop_append_of_le_length (by simp; omega), List.append_assoc]
    have hpre : (data.drop k ++ (buf.take pos).drop (data.length - k)).length = pos := by
      simp; omega
    have hend : (buf.drop pos ++ buf.take pos).drop data.length = (buf.take pos).drop (data.length - k) := by
      rw [List.drop_append, List.drop_eq_nil_of_le (by simp; omega), List.length_drop]
      rfl
    rw [hin, hout, List.rotate_eq_drop_append_take (by simp; omega), List.drop_left' hpre,
      List.take_left' hpre, hfront, hend, ← List.append_assoc, List.take_append_drop]
  · rename_i hfit
    have hpaste : paste buf pos data = buf.take pos ++ (data ++ buf.drop (pos + data.length)) := by
      simp [paste]
    have hpre : (buf.take pos).length = pos := by simp; omega
    rw [hpaste, List.rotate_eq_drop_append_take (by simp; omega), List.drop_left' hpre, List.take_left' hpre, hfront,
      List.drop_append_of_le_length (by simp; omega)]
    simp [List.drop_drop]

/-- Turned back by `n` cells, a copy at the front lands at `n`. -/
theorem rotate_paste_front {r d : List α} {n : Nat} (h : n + d.length ≤ r.length) :
    (paste r 0 d).rotate (r.length - n) = paste (r.rotate (r.length - n)) n d := by
  set j := r.length - n
  have hfront : paste r 0 d = d ++ r.drop d.length := by simp [paste]
  have hsuffix : (r.drop j).length = n := by simp [j]; omega
  have hdrop : (d ++ r.drop d.length).drop j = r.drop j := by
    rw [List.drop_append, List.drop_eq_nil_of_le (by omega), List.drop_drop, List.nil_append]
    congr 1
    omega
  have htake : (d ++ r.drop d.length).take j = d ++ (r.take j).drop d.length := by
    rw [List.take_append, List.take_of_length_le (by omega), List.drop_take]
  have hafter : (r.drop j ++ r.take j).drop (n + d.length) = (r.take j).drop d.length := by
    rw [List.drop_append, List.drop_eq_nil_of_le (by omega), hsuffix, List.nil_append]
    congr 1
    omega
  rw [hfront, List.rotate_eq_drop_append_take (by simp; omega), List.rotate_eq_drop_append_take (by omega),
    hdrop, htake, paste, List.take_left' hsuffix, hafter, List.append_assoc]

/-- A wrapped copy `n` cells after `pos` puts the data at `n` in the ring seen from `pos`. -/
theorem rotate_write_add {buf data : List α} {pos n : Nat} (hpos : pos < buf.length)
    (h : n + data.length ≤ buf.length) :
    (write buf ((pos + n) % buf.length) data).rotate pos = paste (buf.rotate pos) n data := by
  set w := (pos + n) % buf.length
  have hw : w < buf.length := Nat.mod_lt _ (by omega)
  -- `pos` is `w` turned back by `n`
  have hback : (w + (buf.length - n)) % buf.length = pos := by
    rw [Nat.mod_add_mod, show pos + n + (buf.length - n) = pos + buf.length by omega, Nat.add_mod_right,
      Nat.mod_eq_of_lt hpos]
  have hlen : (write buf w data).length = buf.length := length_write hw.le (by omega)
  calc (write buf w data).rotate pos
      = ((write buf w data).rotate w).rotate (buf.length - n) := by
        rw [List.rotate_rotate, ← List.rotate_mod _ (w + _), hlen, hback]
    _ = (paste (buf.rotate w) 0 data).rotate (buf.length - n) := by rw [rotate_write hw (by omega)]
    _ = paste ((buf.rotate w).rotate (buf.length - n)) n data := by
        have hr := rotate_paste_front (r := buf.rotate w) (n := n) (d := data) (by simp; omega)
        rwa [List.length_rotate] at hr
    _ = paste (buf.rotate pos) n data := by
        rw [List.rotate_rotate, ← List.rotate_mod _ (w + _), hback]

/-- The cells from `k` on in a ring seen from `pos + k` are the ring seen from `pos` without its
first `k` cells. -/
theorem take_rotate {l : List α} {k n : Nat} (hk : k ≤ n) (hn : n ≤ l.length) :
    (l.rotate k).take (n - k) = (l.take n).drop k := by
  rw [List.rotate_eq_drop_append_take (by omega), List.take_append_of_le_length (by simp; omega),
    List.drop_take]

theorem flatten_slices {buf : List α} {pos len : Nat} (hpos : pos < buf.length)
    (hlen : len ≤ buf.length) : (slices buf pos len).flatten = (buf.rotate pos).take len := by
  rw [List.rotate_eq_drop_append_take hpos.le, List.take_append]
  unfold slices
  split
  · rename_i hfit
    simp only [List.flatten_cons, List.flatten_nil, List.append_nil, List.length_drop]
    rw [show len - (buf.length - pos) = 0 by omega, List.take_zero, List.append_nil]
  · rename_i hwrap
    have hmod : (pos + len) % buf.length = pos + len - buf.length := by
      rw [Nat.mod_eq_sub_mod (by omega), Nat.mod_eq_of_lt (by omega)]
    simp only [List.flatten_cons, List.flatten_nil, List.append_nil, List.length_drop, hmod,
      List.take_of_length_le (show (buf.drop pos).length ≤ len by simp; omega), List.take_take]
    congr 2
    omega

end Ring
