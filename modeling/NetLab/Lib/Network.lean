/-
  A datagram network: the datagrams it holds, as a list, and what it may do to them.

  The network delays a datagram by not taking it, reorders by taking at any index, loses by
  removing and duplicates by adding a copy. It never changes or invents a datagram, and every
  lemma here is a form of that: what is in the list afterwards was in it before, and the number
  of datagrams of a kind goes down by exactly the one taken. `exists_takeAt` and what follows it say
  the converse: whatever is there can be taken, lost and repeated. The last section is about a
  client, its server and the two directions between them (`forall_flight_mono`,
  `forall_flight_serve`, `forall_flight_deliver`).
-/
import Mathlib

namespace NetLab.Lib

/-- The largest payload of a UDP datagram. -/
def maxDatagram : Nat := 65507

variable {δ : Type}

/-- Takes the datagram at index `k` out of the network. -/
def takeAt (k : Nat) (net : List δ) : Option (δ × List δ) :=
  match net[k]? with
  | none => none
  | some d => some (d, net.eraseIdx k)

/-- Loses the datagram at index `k`. -/
def lose (k : Nat) (net : List δ) : Option (List δ) := (takeAt k net).map Prod.snd

/-- Adds a copy of the datagram at index `k`. -/
def duplicate (k : Nat) (net : List δ) : Option (List δ) := net[k]?.map fun d => net ++ [d]

theorem takeAt_eq_some {k : Nat} {net rest : List δ} {d : δ} :
    takeAt k net = some (d, rest) ↔ net[k]? = some d ∧ net.eraseIdx k = rest := by
  unfold takeAt
  cases net[k]? <;> simp

theorem lose_eq_some {k : Nat} {net rest : List δ} :
    lose k net = some rest ↔ ∃ d, takeAt k net = some (d, rest) := by
  unfold lose
  rw [Option.map_eq_some_iff]
  constructor
  · rintro ⟨⟨d, r⟩, h, rfl⟩
    exact ⟨d, h⟩
  · rintro ⟨d, h⟩
    exact ⟨(d, rest), h, rfl⟩

theorem duplicate_eq_some {k : Nat} {net net' : List δ} :
    duplicate k net = some net' ↔ ∃ d, net[k]? = some d ∧ net ++ [d] = net' := by
  unfold duplicate
  rw [Option.map_eq_some_iff]

/-- The datagram taken was in the network. -/
theorem mem_of_takeAt {k : Nat} {net rest : List δ} {d : δ} (h : takeAt k net = some (d, rest)) :
    d ∈ net :=
  List.mem_of_getElem? (takeAt_eq_some.mp h).1

/-- What is left was in the network. -/
theorem mem_of_mem_rest {k : Nat} {net rest : List δ} {d x : δ}
    (h : takeAt k net = some (d, rest)) (hx : x ∈ rest) : x ∈ net := by
  obtain ⟨_, rfl⟩ := takeAt_eq_some.mp h
  exact List.mem_of_mem_eraseIdx hx

theorem mem_of_lose {k : Nat} {net rest : List δ} {x : δ} (h : lose k net = some rest)
    (hx : x ∈ rest) : x ∈ net := by
  obtain ⟨d, hd⟩ := lose_eq_some.mp h
  exact mem_of_mem_rest hd hx

/-- A duplicate is a datagram that was in the network. -/
theorem mem_of_duplicate {k : Nat} {net net' : List δ} {x : δ}
    (h : duplicate k net = some net') (hx : x ∈ net') : x ∈ net := by
  obtain ⟨d, hd, rfl⟩ := duplicate_eq_some.mp h
  rcases List.mem_append.mp hx with hx | hx
  · exact hx
  · exact List.mem_singleton.mp hx ▸ List.mem_of_getElem? hd

/-- Taking a datagram takes one of its kind. -/
theorem countP_takeAt {k : Nat} {net rest : List δ} {d : δ} (h : takeAt k net = some (d, rest))
    (p : δ → Bool) : net.countP p = rest.countP p + if p d then 1 else 0 := by
  obtain ⟨hd, rfl⟩ := takeAt_eq_some.mp h
  obtain ⟨hk, rfl⟩ := List.getElem?_eq_some_iff.mp hd
  have hperm := (List.getElem_cons_eraseIdx_perm hk).countP_eq p
  rw [← hperm, List.countP_cons]

/-! ## Up to order

A network may take its datagrams in any order, so what it holds matters up to a permutation. -/

theorem perm_of_takeAt {k : Nat} {net rest : List δ} {d : δ} (h : takeAt k net = some (d, rest)) :
    net.Perm (d :: rest) := by
  obtain ⟨hd, rfl⟩ := takeAt_eq_some.mp h
  obtain ⟨hk, rfl⟩ := List.getElem?_eq_some_iff.mp hd
  exact (List.getElem_cons_eraseIdx_perm hk).symm

theorem perm_of_duplicate {k : Nat} {net net' : List δ} (h : duplicate k net = some net') :
    ∃ d ∈ net, net'.Perm (d :: net) := by
  obtain ⟨d, hd, rfl⟩ := duplicate_eq_some.mp h
  exact ⟨d, List.mem_of_getElem? hd, List.perm_append_singleton d net⟩

/-- Any datagram that is there can be taken. -/
theorem exists_takeAt {net rest : List δ} {d : δ} (h : net.Perm (d :: rest)) :
    ∃ k rest', takeAt k net = some (d, rest') ∧ rest'.Perm rest := by
  obtain ⟨k, hk⟩ := List.mem_iff_getElem?.mp (h.mem_iff.mpr List.mem_cons_self)
  have htake : takeAt k net = some (d, net.eraseIdx k) := takeAt_eq_some.mpr ⟨hk, rfl⟩
  exact ⟨k, _, htake, ((perm_of_takeAt htake).symm.trans h).cons_inv⟩

theorem exists_lose {net rest : List δ} {d : δ} (h : net.Perm (d :: rest)) :
    ∃ k rest', lose k net = some rest' ∧ rest'.Perm rest := by
  obtain ⟨k, rest', hk, hrest⟩ := exists_takeAt h
  exact ⟨k, rest', lose_eq_some.mpr ⟨d, hk⟩, hrest⟩

theorem exists_duplicate {net : List δ} {d : δ} (h : d ∈ net) :
    ∃ k net', duplicate k net = some net' ∧ net'.Perm (d :: net) := by
  obtain ⟨k, hk⟩ := List.mem_iff_getElem?.mp h
  exact ⟨k, _, duplicate_eq_some.mpr ⟨d, hk, rfl⟩, List.perm_append_singleton d net⟩

/-! ## Requests, replies and a queue

What holds of every datagram on its way to a server, on its way back and in the client's queue. -/

section Flight

variable {P : δ → Prop} {requests replies queue : List δ}

/-- Losing, repeating and reading datagrams makes no new ones. -/
theorem forall_flight_mono {requests' replies' queue' : List δ}
    (h : ∀ d, d ∈ requests ∨ d ∈ replies ∨ d ∈ queue → P d)
    (hrequests : ∀ d ∈ requests', d ∈ requests) (hreplies : ∀ d ∈ replies', d ∈ replies)
    (hqueue : ∀ d ∈ queue', d ∈ queue) :
    ∀ d, d ∈ requests' ∨ d ∈ replies' ∨ d ∈ queue' → P d := by
  rintro d (hd | hd | hd)
  · exact h d (.inl (hrequests d hd))
  · exact h d (.inr (.inl (hreplies d hd)))
  · exact h d (.inr (.inr (hqueue d hd)))

/-- A server takes a request and sends a reply. -/
theorem forall_flight_serve {k : Nat} {rest : List δ} {d reply : δ}
    (h : ∀ d, d ∈ requests ∨ d ∈ replies ∨ d ∈ queue → P d)
    (hk : takeAt k requests = some (d, rest)) (hreply : P reply) :
    ∀ e, e ∈ rest ∨ e ∈ replies ++ [reply] ∨ e ∈ queue → P e := by
  rintro e (he | he | he)
  · exact h e (.inl (mem_of_mem_rest hk he))
  · rcases List.mem_append.mp he with he | he
    · exact h e (.inr (.inl he))
    · exact List.mem_singleton.mp he ▸ hreply
  · exact h e (.inr (.inr he))

/-- A reply arrives in the queue. -/
theorem forall_flight_deliver {k : Nat} {rest : List δ} {d : δ}
    (h : ∀ d, d ∈ requests ∨ d ∈ replies ∨ d ∈ queue → P d)
    (hk : takeAt k replies = some (d, rest)) :
    ∀ e, e ∈ requests ∨ e ∈ rest ∨ e ∈ queue ++ [d] → P e := by
  rintro e (he | he | he)
  · exact h e (.inl he)
  · exact h e (.inr (.inl (mem_of_mem_rest hk he)))
  · rcases List.mem_append.mp he with he | he
    · exact h e (.inr (.inr he))
    · exact List.mem_singleton.mp he ▸ h d (.inr (.inl (mem_of_takeAt hk)))

end Flight

end NetLab.Lib
