import Craftling.Squashfs.MapOrder

namespace Craftling.Squashfs
open Effects Function

section Counting

variable {α : Type} {f : α → Nat} {l : List α} {n : Nat}

end Counting

structure Coordinates where
  number : Bytes → UInt32
  ref : Bytes → MetaRef

structure Coordinates.Carries (s' s : Coordinates) (p q : Bytes) : Prop where
  number : s'.number p = s.number q
  ref : s'.ref p = s.ref q

variable {p t : Bytes} {e : Entry} {f : Forest} {entries : List Entry}

section

variable (hf : Placed cs f) (hc : Canonical cs)
include hf hc

theorem Placed.path (he : e ∈ f.preorder) :
    ∃ ds, ds ≠ [] ∧ Canonical (cs ++ ds) ∧ e.path = render (cs ++ ds) := by
  induction hf with
  | nil => cases he
  | @cons cs c x below rest hn hp hl hb hr ihbelow ihrest =>
    simp only [Forest.preorder, List.mem_cons, List.mem_append] at he
    rcases he with rfl | he | he
    · exact ⟨[c], by simp, hc.concat hn, hp⟩
    · obtain ⟨ds, _, hca, hd⟩ := ihbelow (hc.concat hn) he
      rw [List.append_assoc] at hca hd
      exact ⟨[c] ++ ds, by simp, hca, hd⟩
    · exact ihrest hc he

end

section Whole

variable {w : Writer} {root : Forest} {o : MapOrders} {e : Entry} {entries : List Entry}

section

variable (hw : SoundEntries w.entries)
include hw

section

variable (hr : buildTree w.entries = .ok root)
include hr

end

end

end Whole

section Crowded

variable {n : Nat}

end Crowded

end Craftling.Squashfs
