/-
  Byte buffers: little-endian integers, stores into a buffer at an offset, and C strings.

  A buffer is a list of bytes and keeps its length: `overwrite buf off new` is the store of `new`
  at `off`, and `slice buf off n` reads `n` bytes at `off`. A store is read back at its own place
  (`slice_overwrite_self`) and leaves the places before it alone (`slice_overwrite_before`).
  `recvInto` is the store of a received datagram. `leBytes w v` are the `w` bytes of `v`, `leNat`
  their value.
-/
import Mathlib

namespace NetLab.Lib

abbrev Bytes := List UInt8

/-! ## Little-endian integers -/

/-- The `w` low bytes of `v`, least significant first. -/
def leBytes : Nat → Nat → Bytes
  | 0, _ => []
  | w + 1, v => UInt8.ofNat v :: leBytes w (v / 256)

/-- The value of a byte string, least significant byte first. -/
def leNat : Bytes → Nat
  | [] => 0
  | b :: bs => b.toNat + 256 * leNat bs

@[simp] theorem length_leBytes (w v : Nat) : (leBytes w v).length = w := by
  induction w generalizing v with
  | zero => rfl
  | succ w ih => rw [leBytes, List.length_cons, ih]

theorem leNat_leBytes (w v : Nat) : leNat (leBytes w v) = v % 256 ^ w := by
  induction w generalizing v with
  | zero => rw [Nat.pow_zero, Nat.mod_one]; rfl
  | succ w ih =>
    have hb : (UInt8.ofNat v).toNat = v % 256 := UInt8.toNat_ofNat'
    rw [leBytes, leNat, ih, hb, Nat.pow_succ', Nat.mod_mul]

theorem leNat_lt (bs : Bytes) : leNat bs < 256 ^ bs.length := by
  induction bs with
  | nil => exact Nat.one_pos
  | cons b bs ih =>
    have hb := b.toNat_lt
    rw [leNat, List.length_cons, Nat.pow_succ]
    omega

/-- A byte string is determined by its length and its value. -/
theorem leBytes_leNat (bs : Bytes) : leBytes bs.length (leNat bs) = bs := by
  induction bs with
  | nil => rfl
  | cons b bs ih =>
    have hb := b.toNat_lt
    have hdiv : leNat (b :: bs) / 256 = leNat bs := by rw [leNat]; omega
    have hmod : UInt8.ofNat (leNat (b :: bs)) = b := by
      apply UInt8.toNat_inj.mp
      rw [UInt8.toNat_ofNat', leNat]
      omega
    rw [List.length_cons, leBytes, hdiv, hmod, ih]

/-- The bytes of an `int`, and the `int` of its bytes. -/
def int32Bytes (x : Int32) : Bytes := leBytes 4 x.toUInt32.toNat

def int32Of (bs : Bytes) : Int32 := (UInt32.ofNat (leNat bs)).toInt32

/-- The bytes of a `long`, and the `long` of its bytes. -/
def int64Bytes (x : Int64) : Bytes := leBytes 8 x.toUInt64.toNat

def int64Of (bs : Bytes) : Int64 := (UInt64.ofNat (leNat bs)).toInt64

@[simp] theorem length_int32Bytes (x : Int32) : (int32Bytes x).length = 4 := length_leBytes 4 _

@[simp] theorem length_int64Bytes (x : Int64) : (int64Bytes x).length = 8 := length_leBytes 8 _

@[simp] theorem int32Of_int32Bytes (x : Int32) : int32Of (int32Bytes x) = x := by
  unfold int32Of int32Bytes
  have hlt := x.toUInt32.toNat_lt
  rw [leNat_leBytes, Nat.mod_eq_of_lt (by omega), UInt32.ofNat_toNat]
  rfl

theorem int32Bytes_int32Of {bs : Bytes} (h : bs.length = 4) : int32Bytes (int32Of bs) = bs := by
  have hlt := leNat_lt bs
  rw [h] at hlt
  unfold int32Bytes int32Of
  rw [UInt32.toUInt32_toInt32, UInt32.toNat_ofNat', Nat.mod_eq_of_lt (by omega)]
  conv_rhs => rw [← leBytes_leNat bs, h]

@[simp] theorem int64Of_int64Bytes (x : Int64) : int64Of (int64Bytes x) = x := by
  unfold int64Of int64Bytes
  have hlt := x.toUInt64.toNat_lt
  rw [leNat_leBytes, Nat.mod_eq_of_lt (by omega), UInt64.ofNat_toNat]
  rfl

/-! ## Loads and stores -/

/-- `n` elements at offset `off`. -/
def slice {α : Type} (buf : List α) (off n : Nat) : List α := (buf.drop off).take n

/-- The buffer after `new` is stored at offset `off`. -/
def overwrite {α : Type} (buf : List α) (off : Nat) (new : List α) : List α :=
  buf.take off ++ (new ++ buf.drop (off + new.length))

variable {α : Type} {buf : List α} {off : Nat}

theorem length_slice {n : Nat} (h : off + n ≤ buf.length) : (slice buf off n).length = n := by
  unfold slice
  simp only [List.length_take, List.length_drop]
  omega

theorem length_overwrite (new : List α) (h : off + new.length ≤ buf.length) :
    (overwrite buf off new).length = buf.length := by
  unfold overwrite
  simp only [List.length_append, List.length_take, List.length_drop]
  omega

theorem slice_overwrite_self (new : List α) (h : off ≤ buf.length) :
    slice (overwrite buf off new) off new.length = new := by
  have hlen : (buf.take off).length = off := by rw [List.length_take, Nat.min_eq_left h]
  unfold slice overwrite
  rw [List.drop_append_of_le_length (by omega), List.drop_eq_nil_of_le (by omega),
    List.nil_append, List.take_left]

theorem slice_overwrite_before {new : List α} {o n : Nat} (hoff : o + n ≤ off)
    (h : off ≤ buf.length) : slice (overwrite buf off new) o n = slice buf o n := by
  have hlen : (buf.take off).length = off := by rw [List.length_take, Nat.min_eq_left h]
  unfold slice overwrite
  rw [List.drop_append_of_le_length (by omega), List.take_append_of_le_length
    (by rw [List.length_drop]; omega), List.drop_take, List.take_take, Nat.min_eq_left (by omega)]

/-- Storing as many elements as the buffer holds replaces it. -/
theorem overwrite_all {new : List α} (h : new.length = buf.length) : overwrite buf 0 new = new := by
  unfold overwrite
  rw [List.take_zero, List.nil_append, List.drop_eq_nil_of_le (by omega), List.append_nil]

/-- A store at offset 0 is a prefix of the result. -/
theorem overwrite_zero (buf new : List α) :
    overwrite buf 0 new = new ++ buf.drop new.length := by
  unfold overwrite
  rw [List.take_zero, List.nil_append, Nat.zero_add]

/-- The buffer after `recvfrom` has put a datagram into it: the first `size` bytes of the datagram
    at its start, the rest as it was. -/
def recvInto {α : Type} (size : Nat) (buffer datagram : List α) : List α :=
  overwrite buffer 0 (datagram.take size)

theorem length_recvInto {size : Nat} {buffer : List α} (h : size ≤ buffer.length)
    (datagram : List α) : (recvInto size buffer datagram).length = buffer.length := by
  unfold recvInto
  refine length_overwrite _ ?_
  rw [List.length_take]
  omega

/-- A datagram of exactly the buffer's size replaces the buffer. -/
theorem recvInto_full {size : Nat} {buffer datagram : List α} (hb : buffer.length = size)
    (hd : datagram.length = size) : recvInto size buffer datagram = datagram := by
  unfold recvInto
  rw [List.take_of_length_le (by omega)]
  exact overwrite_all (by omega)

/-- A part that the datagram reaches holds its bytes. -/
theorem slice_recvInto {size o n : Nat} (buffer : List α) {datagram : List α} (hsize : o + n ≤ size)
    (hd : o + n ≤ datagram.length) :
    slice (recvInto size buffer datagram) o n = slice datagram o n := by
  have hlen : o + n ≤ (datagram.take size).length := by
    rw [List.length_take]
    omega
  unfold slice recvInto
  rw [overwrite_zero, List.drop_append_of_le_length (by omega),
    List.take_append_of_le_length (by rw [List.length_drop]; omega), List.drop_take, List.take_take,
    Nat.min_eq_left (by omega)]

/-- The bytes that were received, and none the buffer held before. -/
theorem take_recvInto (size : Nat) (buffer datagram : List α) :
    (recvInto size buffer datagram).take (datagram.take size).length = datagram.take size := by
  unfold recvInto
  rw [overwrite_zero, List.take_left]

/-- What is received comes first, and the bytes after it stay. -/
theorem slice_recvInto_zero {size n : Nat} (buffer datagram : List α) (hn : n ≤ size) :
    slice (recvInto size buffer datagram) 0 n =
      datagram.take n ++ (slice buffer 0 n).drop (datagram.take n).length := by
  unfold slice recvInto
  simp only [overwrite_zero, List.drop_zero, List.take_append, List.take_take,
    Nat.min_eq_left hn, List.drop_take, List.length_take]
  rcases Nat.le_total n datagram.length with hle | hle
  · rw [Nat.min_eq_left hle, Nat.sub_self, List.take_zero, Nat.sub_eq_zero_of_le (by omega),
      List.take_zero]
  · rw [Nat.min_eq_right hle, Nat.min_eq_right (by omega)]

/-- The start of the buffer stays exactly if the datagram agrees with it as far as it goes. -/
theorem slice_recvInto_zero_eq_iff {size n : Nat} (buffer datagram : List α) (hn : n ≤ size) :
    slice (recvInto size buffer datagram) 0 n = slice buffer 0 n ↔
      datagram.take n <+: slice buffer 0 n := by
  rw [slice_recvInto_zero buffer datagram hn]
  exact List.prefix_iff_eq_append.symm

/-- A place the datagram reaches holds its byte. -/
theorem getElem?_recvInto {size : Nat} (buffer : List α) {datagram : List α} {i : Nat}
    (hi : i < size) (hd : i < datagram.length) :
    (recvInto size buffer datagram)[i]? = datagram[i]? := by
  unfold recvInto
  rw [overwrite_zero, List.getElem?_append_left (by rw [List.length_take]; omega),
    List.getElem?_take_of_lt hi]

/-! ## C strings -/

/-- The C string that starts at the first byte of a buffer. -/
def cstr (bs : Bytes) : Bytes := bs.takeWhile (· ≠ 0)

/-- `s` has no terminator inside. -/
def NoNul (s : Bytes) : Prop := ∀ b ∈ s, b ≠ 0

instance (s : Bytes) : Decidable (NoNul s) := List.decidableBAll (· ≠ 0) s

theorem cstr_append_of_noNul {s : Bytes} (h : NoNul s) (t : Bytes) :
    cstr (s ++ t) = s ++ cstr t := by
  unfold cstr
  rw [List.takeWhile_append_of_pos]
  intro b hb
  simpa using h b hb

theorem cstr_cons_zero (t : Bytes) : cstr (0 :: t) = [] := rfl

theorem cstr_replicate_zero (n : Nat) : cstr (List.replicate n 0) = [] := by
  cases n <;> rfl

end NetLab.Lib
