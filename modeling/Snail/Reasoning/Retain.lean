import Mathlib.Data.List.AList

/-!
# Retain — maps that drop entries

`HashMap::retain` on the values of a map.
-/

namespace Snail.Reasoning

variable {K V : Type*} [DecidableEq K]

def retain (keep : V → Bool) (t : AList fun _ : K => V) : AList fun _ : K => V :=
  ⟨t.entries.filter fun e => keep e.2, t.nodupKeys.sublist List.filter_sublist⟩

theorem lookup_retain (keep : V → Bool) (t : AList fun _ : K => V) (k : K) :
    (retain keep t).lookup k = (t.lookup k).filter keep := by
  ext v
  have hkept := List.mem_dlookup_iff (a := k) (b := v) (retain keep t).nodupKeys
  have hthere := List.mem_dlookup_iff (a := k) (b := v) t.nodupKeys
  rw [Option.filter_eq_some_iff]
  refine hkept.trans ?_
  rw [show (retain keep t).entries = t.entries.filter fun e => keep e.2 from rfl, List.mem_filter]
  exact and_congr_left' hthere.symm

theorem length_insert (t : AList fun _ : K => V) (k : K) (v : V) :
    (t.insert k v).entries.length =
      if (t.lookup k).isSome then t.entries.length else t.entries.length + 1 := by
  show (⟨k, v⟩ :: t.entries.kerase k).length = _
  rw [List.length_cons]
  by_cases hk : k ∈ t
  · rw [if_pos (AList.lookup_isSome.mpr hk)]
    obtain ⟨u, before, after, -, hthere, hrest⟩ := List.exists_of_kerase hk
    rw [hrest, hthere]
    simp [Nat.add_assoc]
  · rw [if_neg fun h => hk (AList.lookup_isSome.mp h), List.kerase_of_notMem_keys hk]

omit [DecidableEq K] in
theorem length_retain_le (keep : V → Bool) (t : AList fun _ : K => V) :
    (retain keep t).entries.length ≤ t.entries.length :=
  List.length_filter_le _ _

end Snail.Reasoning
