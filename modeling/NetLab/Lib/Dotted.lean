/-
  IPv4 addresses in text: `inet_ntop` and `inet_pton`.

  An address is a 32-bit number, its first octet the highest. `inet_pton` takes four decimal octets
  without leading zeros, with dots between them, and nothing else.

  * `inet_pton_inet_ntop`: what is printed is read back.
  * `inet_pton_eq_some`: and nothing but what is printed is read.
-/
import NetLab.Lib.Decimal
import NetLab.Lib.Delimited

namespace NetLab.Lib

/-- Octet `i` of an address, from the lowest. -/
def octet (addr : UInt32) (i : Nat) : Nat := addr.toNat / 256 ^ i % 256

/-- The address of four octets. -/
def ofOctets (a b c d : Nat) : UInt32 :=
  UInt32.ofNat (a * 256 ^ 3 + b * 256 ^ 2 + c * 256 + d)

/-- The octets in the order they are written. -/
def octets (addr : UInt32) : List Nat := [octet addr 3, octet addr 2, octet addr 1, octet addr 0]

/-- `inet_ntop (AF_INET, ..)`. -/
def inet_ntop (addr : UInt32) : List Char := joinOn '.' ((octets addr).map (Nat.toDigits 10))

/-- A numeral of digits below 256 without a leading zero. -/
def readOctet (s : List Char) : Option Nat :=
  (readNat s).filter fun n => n < 256 ∧ (s.length = 1 ∨ s.head? ≠ some '0')

/-- `inet_pton (AF_INET, ..)`. -/
def inet_pton (s : List Char) : Option UInt32 :=
  match (s.splitOn '.').mapM readOctet with
  | some [a, b, c, d] => some (ofOctets a b c d)
  | _ => none

theorem octet_lt (addr : UInt32) (i : Nat) : octet addr i < 256 := Nat.mod_lt _ (by decide)

/-- The only numeral of an octet is its digits. -/
theorem readOctet_eq_some {s : List Char} {n : Nat} :
    readOctet s = some n ↔ n < 256 ∧ s = Nat.toDigits 10 n := by
  unfold readOctet readNat
  rw [Option.filter_eq_some_iff, Option.ite_none_right_eq_some, Option.some.injEq,
    decide_eq_true_eq]
  constructor
  · rintro ⟨⟨⟨hne, hdigits⟩, rfl⟩, hlt, hlead⟩
    exact ⟨hlt, (toDigits_ofDigitChars hne (List.all_eq_true.mp hdigits) hlead).symm⟩
  · rintro ⟨hlt, rfl⟩
    refine ⟨⟨⟨Nat.toDigits_ne_nil, List.all_eq_true.mpr fun _ => isDigit_toDigits⟩,
      Nat.ofDigitChars_ten_toDigits⟩, hlt, ?_⟩
    -- no octet but zero starts with a zero
    have hall : ∀ n < 256, (Nat.toDigits 10 n).length = 1 ∨
        (Nat.toDigits 10 n).head? ≠ some '0' := by decide +kernel
    exact hall n hlt

theorem octets_ofOctets {a b c d : Nat} (ha : a < 256) (hb : b < 256) (hc : c < 256)
    (hd : d < 256) : octets (ofOctets a b c d) = [a, b, c, d] := by
  have hnat : (ofOctets a b c d).toNat = a * 256 ^ 3 + b * 256 ^ 2 + c * 256 + d := by
    unfold ofOctets
    rw [UInt32.toNat_ofNat']
    omega
  unfold octets octet
  rw [hnat]
  simp only [List.cons.injEq, and_true]
  omega

theorem ofOctets_octet (addr : UInt32) :
    ofOctets (octet addr 3) (octet addr 2) (octet addr 1) (octet addr 0) = addr := by
  have hlt := addr.toNat_lt
  apply UInt32.toNat_inj.mp
  unfold ofOctets
  rw [UInt32.toNat_ofNat']
  unfold octet
  omega

/-- Between the dots of an address are the digits of its octets. -/
theorem splitOn_inet_ntop (addr : UInt32) :
    (inet_ntop addr).splitOn '.' = (octets addr).map (Nat.toDigits 10) := by
  refine splitOn_joinOn (by simp [octets]) fun field hfield => ?_
  obtain ⟨n, _, rfl⟩ := List.mem_map.mp hfield
  exact not_mem_toDigits (by decide) n

/-- **What is printed is read back.** -/
theorem inet_pton_inet_ntop (addr : UInt32) : inet_pton (inet_ntop addr) = some addr := by
  have hread : ((octets addr).map (Nat.toDigits 10)).mapM readOctet = some (octets addr) := by
    have hmap := mapM_map_eq_some (f := readOctet) (g := Nat.toDigits 10) (h := id)
      (l := octets addr) fun n hn => ?_
    · rwa [List.map_id] at hmap
    · refine readOctet_eq_some.mpr ⟨?_, rfl⟩
      simp only [octets, List.mem_cons, List.not_mem_nil, or_false] at hn
      rcases hn with rfl | rfl | rfl | rfl <;> exact octet_lt addr _
  unfold inet_pton
  rw [splitOn_inet_ntop, hread]
  exact congrArg some (ofOctets_octet addr)

/-- **Only what is printed is read.** -/
theorem inet_pton_eq_some {s : List Char} {addr : UInt32} :
    inet_pton s = some addr ↔ s = inet_ntop addr := by
  constructor
  · intro h
    unfold inet_pton at h
    split at h
    · rename_i a b c d hread
      obtain rfl := Option.some.inj h
      have hfields := forall₂_of_mapM hread
      simp only [readOctet_eq_some] at hfields
      generalize hparts : s.splitOn '.' = parts at hfields
      rcases hfields with _ | ⟨⟨ha, rfl⟩, _ | ⟨⟨hb, rfl⟩, _ | ⟨⟨hc, rfl⟩, _ | ⟨⟨hd, rfl⟩, _ | _⟩⟩⟩⟩
      have hjoin : ['.'].intercalate (s.splitOn '.') = s := List.intercalate_splitOn '.'
      rw [hparts] at hjoin
      unfold inet_ntop
      rw [octets_ofOctets ha hb hc hd]
      exact hjoin.symm
    · cases h
  · rintro rfl
    exact inet_pton_inet_ntop addr

end NetLab.Lib
