import Mathlib.Data.Set.BooleanAlgebra
import Mathlib.Data.Set.Disjoint
import Mathlib.Order.CompletePartialOrder
import Mathlib.Tactic.Common

/-!
# Operations With A Footprint

A state is seen through its cells.  An operation is local to a set of cells when it leaves
every other cell alone and when what it does to its own cells depends on them alone.  Two
operations that are local to disjoint sets commute, cell by cell.
-/

namespace MinixCv.Lib

universe u v w

variable {S : Type u} {K : Type v} {V : Type w}

/-- In the state `s`, and in every state with the same cells in `F`, the operation `f` writes
    only cells of `F`, and what it writes depends only on the cells of `F`. -/
structure LocalAt (cell : S → K → V) (F : Set K) (f : S → S) (s : S) : Prop where
  outside : ∀ t, (∀ k ∈ F, cell t k = cell s k) → ∀ k ∉ F, cell (f t) k = cell t k
  inside : ∀ t, (∀ k ∈ F, cell t k = cell s k) → ∀ k ∈ F, cell (f t) k = cell (f s) k

variable {cell : S → K → V} {F G : Set K} {f g : S → S} {s : S}

/-- An operation with a disjoint footprint leaves the cells of `F` alone. -/
theorem LocalAt.frame (hg : LocalAt cell G g s) (hd : Disjoint F G) :
    ∀ k ∈ F, cell (g s) k = cell s k :=
  fun k hk => hg.outside s (fun _ _ => rfl) k (Set.disjoint_left.mp hd hk)

/-- **Disjoint operations commute.** -/
theorem LocalAt.comm (hf : LocalAt cell F f s) (hg : LocalAt cell G g s) (hd : Disjoint F G)
    (k : K) : cell (f (g s)) k = cell (g (f s)) k := by
  have hfg := hg.frame hd
  have hgf := hf.frame hd.symm
  by_cases hkF : k ∈ F
  · -- `f` writes the cell, and sees the same footprint in both orders
    have hkG : k ∉ G := Set.disjoint_left.mp hd hkF
    rw [hf.inside _ hfg k hkF, hg.outside _ hgf k hkG]
  · by_cases hkG : k ∈ G
    · rw [hf.outside _ hfg k hkF, hg.inside _ hgf k hkG]
    · -- nobody writes it
      rw [hf.outside _ hfg k hkF, hg.outside _ hgf k hkG,
        hg.outside s (fun _ _ => rfl) k hkG, hf.outside s (fun _ _ => rfl) k hkF]

end MinixCv.Lib
