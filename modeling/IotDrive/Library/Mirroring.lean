/-
**Mirroring: several copies of one address space.**

Each address of a domain has one copy per element of `κ`, and `place c a` is the site of the copy
`c` of the address `a`.  A memory of sites mirrors the contents `d` when every copy of every
address holds the cell of `d`.

Main definitions:

* `Mirrors`, `Holds` — every copy, or one copy, holds the contents;
* `Stores` — a list was stored at all copies of an extent, and nowhere else.

Main results:

* `Mirrors.store` — storing a list at all copies overwrites the contents;
* `Mirrors.recover` — the contents can be read off the sites that were not lost.
-/

import IotDrive.Library.Extent
import Mathlib.Data.Set.Function

set_option relaxedAutoImplicit false
set_option autoImplicit false

namespace Mirroring

variable {κ σ α : Type*} {place : κ → ℕ → σ} {dom : Set ℕ} {mem mem' : σ → α} {d : ℕ → α}

/-- Every copy of every address of `dom` holds the cell of `d`. -/
def Mirrors (place : κ → ℕ → σ) (dom : Set ℕ) (mem : σ → α) (d : ℕ → α) : Prop :=
  ∀ c, ∀ a ∈ dom, mem (place c a) = d a

/-- The copy `c` of every address of `dom` holds the cell of `d`. -/
def Holds (place : κ → ℕ → σ) (dom : Set ℕ) (mem : σ → α) (c : κ) (d : ℕ → α) : Prop :=
  ∀ a ∈ dom, mem (place c a) = d a

/-- `mem'` is `mem` with `xs` stored at every copy of the addresses `o, o + 1, …`. -/
structure Stores (place : κ → ℕ → σ) (o : ℕ) (xs : List α) (mem mem' : σ → α) : Prop where
  inside : ∀ c k (hk : k < xs.length), mem' (place c (o + k)) = xs[k]
  outside : ∀ s, (∀ c, ∀ k < xs.length, s ≠ place c (o + k)) → mem' s = mem s

/-- No two copies of addresses of `dom` share a site. -/
def Separate (place : κ → ℕ → σ) (dom : Set ℕ) : Prop :=
  ∀ c c', ∀ a ∈ dom, ∀ a' ∈ dom, place c a = place c' a' → c = c' ∧ a = a'

/-- Storing a list at all copies of an extent overwrites the contents there. -/
theorem Mirrors.store (h : Mirrors place dom mem d) (hsep : Separate place dom) {o : ℕ}
    {xs : List α} (hin : ∀ k < xs.length, o + k ∈ dom) (hs : Stores place o xs mem mem') :
    Mirrors place dom mem' (Extent.overwrite d o xs) := by
  intro c a ha
  rcases Extent.overwrite_cases d o xs a with ⟨k, hk, rfl, hd⟩ | ⟨hout, hd⟩
  · rw [hd]
    exact hs.inside c k hk
  · rw [hd, hs.outside, h c a ha]
    intro c' k hk heq
    have := (hsep c c' a ha (o + k) (hin k hk) heq).2
    omega

/-- Sites that were not lost give back the contents, as long as every address has such a copy. -/
theorem Mirrors.recover (h : Mirrors place dom mem d) (lost : Set σ) (pick : ℕ → κ)
    (hpick : ∀ a ∈ dom, place (pick a) a ∉ lost) (hkept : ∀ s, s ∉ lost → mem' s = mem s) :
    ∀ a ∈ dom, mem' (place (pick a) a) = d a := by
  intro a ha
  rw [hkept _ (hpick a ha), h (pick a) a ha]

/-- The extent of a copy that keeps an extent together reads as the extent of the contents. -/
theorem Mirrors.extract (h : Mirrors place dom mem d) (c : κ) (site : ℕ → σ) (p : ℕ) {o n : ℕ}
    (hin : ∀ k < n, o + k ∈ dom) (hsite : ∀ k < n, place c (o + k) = site (p + k)) :
    Extent.extract (fun q => mem (site q)) p n = Extent.extract d o n := by
  refine Extent.extract_congr ?_
  intro k hk
  rw [← hsite k hk, h c (o + k) (hin k hk)]

end Mirroring
