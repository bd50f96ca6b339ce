import Mathlib

/-!
# Blocks of a heap

A heap hands out blocks by name and takes them back.  Its users hold some of the blocks, and have
lost the others.

* `Heap.Owned`: nothing has been given back that was not there, and what is there is what is held
  and what has been lost.
* `Owned.malloc`, `Owned.freeAll`, `Owned.lose`: the rules for the accounts.
-/

/-- The blocks that are there, the next name, and how often something was given back that was not
there. -/
structure Heap where
  next : Nat := 0
  live : List Nat := []
  faults : Nat := 0
deriving DecidableEq, Repr

namespace Heap

def malloc (h : Heap) : Heap := { h with next := h.next + 1, live := h.next :: h.live }

def free (h : Heap) (id : Nat) : Heap :=
  if id ∈ h.live then { h with live := h.live.erase id } else { h with faults := h.faults + 1 }

def freeAll (h : Heap) (ids : List Nat) : Heap := ids.foldl free h

/-- The accounts of a heap. -/
structure Owned (held lost : List Nat) (h : Heap) : Prop where
  perm : h.live.Perm (held ++ lost)
  nodup : h.live.Nodup
  bound : ∀ id ∈ h.live, id < h.next
  faults : h.faults = 0

namespace Owned

variable {held held' lost : List Nat} {h : Heap} {id : Nat}

theorem init : Owned [] [] {} := ⟨.refl _, .nil, fun _ hid => absurd hid List.not_mem_nil, rfl⟩

theorem mem (ho : Owned held lost h) (hid : id ∈ held) : id ∈ h.live :=
  ho.perm.mem_iff.mpr (List.mem_append_left lost hid)

theorem congr (ho : Owned held lost h) (hperm : held.Perm held') : Owned held' lost h :=
  ⟨ho.perm.trans (hperm.append_right lost), ho.nodup, ho.bound, ho.faults⟩

theorem length_live (ho : Owned held lost h) : h.live.length = held.length + lost.length := by
  rw [ho.perm.length_eq, List.length_append]

theorem malloc (ho : Owned held lost h) : Owned (h.next :: held) lost h.malloc := by
  refine ⟨ho.perm.cons h.next, ?_, ?_, ho.faults⟩
  · refine List.nodup_cons.mpr ⟨fun hmem => ?_, ho.nodup⟩
    exact absurd (ho.bound _ hmem) (Nat.lt_irrefl _)
  · intro id hid
    rcases List.mem_cons.mp hid with rfl | hold
    · exact Nat.lt_succ_self _
    · exact Nat.lt_succ_of_lt (ho.bound id hold)

theorem free (ho : Owned (id :: held) lost h) : Owned held lost (h.free id) := by
  have hmem : id ∈ h.live := ho.mem List.mem_cons_self
  rw [Heap.free, if_pos hmem]
  refine ⟨?_, ho.nodup.erase id, fun x hx => ho.bound x (List.mem_of_mem_erase hx), ho.faults⟩
  exact ((List.perm_cons_erase hmem).symm.trans ho.perm).cons_inv

theorem freeAll : ∀ (ids : List Nat) {h : Heap}, Owned (ids ++ held) lost h →
    Owned held lost (h.freeAll ids) := by
  intro ids
  induction ids with
  | nil => exact id
  | cons id ids ih => exact fun ho => ih ho.free

theorem lose {ids : List Nat} (ho : Owned (ids ++ held) lost h) :
    Owned held (ids ++ lost) h := by
  refine ⟨ho.perm.trans ?_, ho.nodup, ho.bound, ho.faults⟩
  rw [← List.append_assoc]
  exact List.perm_append_comm.append_right lost

end Owned

end Heap
