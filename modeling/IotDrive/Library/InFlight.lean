/-
**Messages in flight and their codes.**

A network that loses, duplicates and reorders holds its messages in no order: what is in flight is a
list up to permutation.  A finer network holds codes of what a coarser one holds, and every change of
the one is a change of the other.

Main definitions:

* `InFlight.Coded` — the one network holds the codes of what the other holds.

Main results:

* `InFlight.Coded.exists_of_mem` — every code in flight is one of a message in flight;
* `InFlight.Coded.append`, `InFlight.Coded.erase` — sending and taking out.
-/

import Mathlib.Data.List.Perm.Basic

set_option relaxedAutoImplicit false
set_option autoImplicit false

namespace InFlight

variable {α β : Type*} {code : α → β} {codes codes' : List β} {sent sent' : List α}

/-- The codes in flight are those of the messages in flight, in some order. -/
def Coded (code : α → β) (codes : List β) (sent : List α) : Prop := codes.Perm (sent.map code)

namespace Coded

theorem nil : Coded code [] [] := List.Perm.refl []

theorem of_map (h : sent.map code = codes) : Coded code codes sent := h ▸ List.Perm.refl _

theorem mem (h : Coded code codes sent) {a : α} (ha : a ∈ sent) : code a ∈ codes :=
  h.symm.subset (List.mem_map_of_mem ha)

/-- Every code is one of a message. -/
theorem exists_of_mem (h : Coded code codes sent) {b : β} (hb : b ∈ codes) :
    ∃ a ∈ sent, code a = b :=
  List.mem_map.1 (h.subset hb)

/-- Sending. -/
theorem append (h : Coded code codes sent) (h' : Coded code codes' sent') :
    Coded code (codes ++ codes') (sent ++ sent') := by
  have hperm := List.Perm.append h h'
  rwa [← List.map_append] at hperm

variable [BEq α] [LawfulBEq α] [BEq β] [LawfulBEq β]

/-- Taking out. -/
theorem erase (h : Coded code codes sent) {a : α} (ha : a ∈ sent) :
    Coded code (codes.erase (code a)) (sent.erase a) := by
  have hperm := (List.perm_cons_erase ha).map code
  have herase := (List.Perm.trans h hperm).erase (code a)
  rwa [List.map_cons, List.erase_cons_head] at herase

end Coded

end InFlight
