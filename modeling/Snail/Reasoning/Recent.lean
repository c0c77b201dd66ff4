import Mathlib.Data.List.DropRight

/-!
# Recent — the last entries of a log

A log of bounded length: the oldest entry makes room for the new one.
-/

namespace Snail.Reasoning

variable {α : Type}

structure Recent (α : Type) where
  capacity : Nat
  entries : List α
  capacity_pos : 1 ≤ capacity
  length_le : entries.length ≤ capacity

-- what is left of the entries when one more comes
def makeRoom (capacity : Nat) (entries : List α) : List α :=
  if entries.length = capacity then entries.tail else entries

theorem length_makeRoom_concat {capacity : Nat} {entries : List α} (hpos : 1 ≤ capacity)
    (hle : entries.length ≤ capacity) (a : α) :
    (makeRoom capacity entries ++ [a]).length ≤ capacity := by
  rw [List.length_append, List.length_singleton]
  unfold makeRoom
  split
  · rw [List.length_tail]
    omega
  · omega

/-- It holds at least one entry. -/
def Recent.new (capacity : Nat) : Recent α :=
  ⟨max capacity 1, [], Nat.le_max_right capacity 1, Nat.zero_le _⟩

def Recent.push (r : Recent α) (a : α) : Recent α :=
  ⟨r.capacity, makeRoom r.capacity r.entries ++ [a], r.capacity_pos,
    length_makeRoom_concat r.capacity_pos r.length_le a⟩

def Recent.pushAll (r : Recent α) (log : List α) : Recent α := log.foldl Recent.push r

theorem makeRoom_rtake (n : Nat) (log : List α) :
    makeRoom (n + 1) (log.rtake (n + 1)) = log.rtake n := by
  have hlength : (log.rtake (n + 1)).length = min (n + 1) log.length := by
    rw [List.rtake, List.length_drop]
    omega
  unfold makeRoom
  split
  · rename_i hfull
    rw [List.rtake, List.rtake, List.tail_drop]
    congr 1
    omega
  · rename_i hroom
    rw [List.rtake, List.rtake]
    congr 1
    omega

/-- What it shows after a push is the end of the longer log. -/
theorem Recent.entries_push {r : Recent α} {log : List α} (h : r.entries = log.rtake r.capacity)
    (a : α) : (r.push a).entries = (log ++ [a]).rtake r.capacity := by
  obtain ⟨n, hn⟩ : ∃ n, r.capacity = n + 1 := ⟨r.capacity - 1, by have := r.capacity_pos; omega⟩
  change makeRoom r.capacity r.entries ++ [a] = _
  rw [h, hn, makeRoom_rtake, List.rtake_concat_succ]

theorem Recent.capacity_pushAll (r : Recent α) (log : List α) :
    (r.pushAll log).capacity = r.capacity := by
  induction log using List.reverseRecOn with
  | nil => rfl
  | append_singleton log a ih =>
    rw [pushAll, List.foldl_append]
    exact ih

/-- One that has been pushed a log shows the end of it. -/
theorem Recent.entries_pushAll (capacity : Nat) (log : List α) :
    ((Recent.new capacity).pushAll log).entries = log.rtake (max capacity 1) := by
  have hcapacity : ∀ log : List α, ((Recent.new capacity).pushAll log).capacity = max capacity 1 :=
    fun log => (Recent.new capacity).capacity_pushAll log
  induction log using List.reverseRecOn with
  | nil => exact (List.rtake_nil _).symm
  | append_singleton log a ih =>
    rw [← hcapacity log] at ih ⊢
    rw [pushAll, List.foldl_append]
    exact Recent.entries_push ih a

end Snail.Reasoning
