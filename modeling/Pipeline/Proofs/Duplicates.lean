import Mathlib.Data.Finset.Card
import Mathlib.Data.List.Induction
import Mathlib.Data.List.Perm.Basic
import Pipeline.Duplicates

/-!
# Repeated keys

`duplicates` scans a list with the keys that it has seen. What it lists is told without the scan:

* `duplicates_concat`: one key more at the end of a list is listed if it is in the list.
* `filter_duplicates`, `mem_duplicates_iff`: a position is listed once if its key stands at an
  earlier position (`repeatedAt?`), and not at all if it does not.
* `duplicates_eq_nil_iff`: nothing is listed if no two keys are equal.
* `length_duplicates`: as many positions are listed as there are keys more than different keys.
* `count_repeated`, `repeated_perm`: how often a key is listed does not depend on the order of the keys.
-/

namespace Pipeline

variable {keys keys' : List String} {i : Nat} {key : String}

/-! ## One key more -/

theorem duplicatesFrom_concat (seen : List String) (n : Nat) (keys : List String) (key : String) :
    duplicatesFrom seen n (keys ++ [key]) =
      duplicatesFrom seen n keys ++
        if key ∈ seen ∨ key ∈ keys then [(n + keys.length, key)] else [] := by
  induction keys generalizing seen n with
  | nil => simp [duplicatesFrom]
  | cons k ks ih =>
    have hn : n + 1 + ks.length = n + (k :: ks).length := by
      rw [List.length_cons]
      omega
    by_cases hk : k ∈ seen
    · have hseen : key ∈ seen ∨ key ∈ k :: ks ↔ key ∈ seen ∨ key ∈ ks := by
        rw [List.mem_cons]
        refine ⟨?_, fun h => h.imp_right .inr⟩
        rintro (h | rfl | h)
        · exact .inl h
        · exact .inl hk
        · exact .inr h
      simp only [List.cons_append, duplicatesFrom, if_pos hk, ih, hn, hseen]
    · have hseen : key ∈ seen ∨ key ∈ k :: ks ↔ key ∈ k :: seen ∨ key ∈ ks := by
        rw [List.mem_cons, List.mem_cons, or_left_comm, or_assoc]
      simp only [List.cons_append, duplicatesFrom, if_neg hk, ih, hn, hseen]

/-- A key at the end of a list is listed if it is in the list. -/
theorem duplicates_concat (keys : List String) (key : String) :
    duplicates (keys ++ [key]) =
      duplicates keys ++ if key ∈ keys then [(keys.length, key)] else [] := by
  rw [duplicates, duplicatesFrom_concat]
  simp [duplicates]

/-! ## Positions -/

/-- The key at a position, if it stands at an earlier position as well. -/
def repeatedAt? (keys : List String) (i : Nat) : Option String :=
  keys[i]?.filter fun key => key ∈ keys.take i

theorem mem_take_iff : key ∈ keys.take i ↔ ∃ k < i, keys[k]? = some key := by
  rw [List.mem_iff_getElem?]
  refine exists_congr fun k => ?_
  rw [List.getElem?_take]
  split <;> simp [*]

theorem repeatedAt?_eq_some_iff :
    repeatedAt? keys i = some key ↔ keys[i]? = some key ∧ ∃ k < i, keys[k]? = some key := by
  rw [repeatedAt?, Option.filter_eq_some_iff, decide_eq_true_iff, mem_take_iff]

theorem repeatedAt?_of_le (h : keys.length ≤ i) : repeatedAt? keys i = none := by
  rw [repeatedAt?, List.getElem?_eq_none h, Option.filter_none]

theorem repeatedAt?_concat_of_ne (h : i ≠ keys.length) :
    repeatedAt? (keys ++ [key]) i = repeatedAt? keys i := by
  rcases Nat.lt_or_gt_of_ne h with hlt | hgt
  · rw [repeatedAt?, List.getElem?_append_left hlt, List.take_append_of_le_length hlt.le, repeatedAt?]
  · rw [repeatedAt?_of_le hgt.le, repeatedAt?_of_le (by simpa using Nat.succ_le_of_lt hgt)]

theorem repeatedAt?_concat_length :
    repeatedAt? (keys ++ [key]) keys.length = if key ∈ keys then some key else none := by
  simp [repeatedAt?, Option.filter_some]

/-- A position is listed once if its key is repeated there, and not otherwise. -/
theorem filter_duplicates (keys : List String) (i : Nat) :
    ((duplicates keys).filter fun e => e.1 = i) =
      ((repeatedAt? keys i).map fun key => (i, key)).toList := by
  induction keys using List.reverseRecOn with
  | nil => simp [duplicates, duplicatesFrom, repeatedAt?]
  | append_singleton keys key ih =>
    rw [duplicates_concat, List.filter_append, ih]
    by_cases hi : i = keys.length
    · subst hi
      rw [repeatedAt?_of_le le_rfl, repeatedAt?_concat_length]
      split <;> simp
    · rw [repeatedAt?_concat_of_ne hi]
      have hne : keys.length ≠ i := Ne.symm hi
      split <;> simp [hne]

theorem mem_duplicates_iff : (i, key) ∈ duplicates keys ↔ repeatedAt? keys i = some key := by
  have hmem : (i, key) ∈ duplicates keys ↔ (i, key) ∈ (duplicates keys).filter fun e => e.1 = i := by
    simp
  rw [hmem, filter_duplicates]
  simp

theorem getElem?_of_mem_duplicates (h : (i, key) ∈ duplicates keys) : keys[i]? = some key :=
  (repeatedAt?_eq_some_iff.mp (mem_duplicates_iff.mp h)).1

theorem duplicates_eq_nil_iff : duplicates keys = [] ↔ keys.Nodup := by
  induction keys using List.reverseRecOn with
  | nil => simp [duplicates, duplicatesFrom]
  | append_singleton keys key ih =>
    rw [duplicates_concat, List.append_eq_nil_iff, ih, ← List.concat_eq_append, List.nodup_concat]
    split <;> simp [*]

/-! ## Numbers -/

theorem length_duplicates_add_card (keys : List String) :
    (duplicates keys).length + keys.toFinset.card = keys.length := by
  induction keys using List.reverseRecOn with
  | nil => rfl
  | append_singleton keys key ih =>
    have hset : (keys ++ [key]).toFinset = insert key keys.toFinset := by
      ext k
      simp
    rw [duplicates_concat, hset, List.length_append, List.length_append, List.length_singleton]
    split
    · rename_i hk
      rw [Finset.insert_eq_of_mem (List.mem_toFinset.mpr hk), List.length_singleton]
      omega
    · rename_i hk
      rw [Finset.card_insert_of_notMem (mt List.mem_toFinset.mp hk), List.length_nil]
      omega

/-- There are as many repetitions as there are keys more than different keys. -/
theorem length_duplicates (keys : List String) :
    (duplicates keys).length = keys.length - keys.toFinset.card :=
  Nat.eq_sub_of_add_eq (length_duplicates_add_card keys)

/-- The keys that occur earlier in the list, once for each such occurrence. -/
def repeated (keys : List String) : List String := (duplicates keys).map Prod.snd

/-- Each occurrence of a key is listed but for the first. -/
theorem count_repeated (keys : List String) (k : String) :
    (repeated keys).count k = keys.count k - 1 := by
  induction keys using List.reverseRecOn with
  | nil => rfl
  | append_singleton keys key ih =>
    rw [repeated, duplicates_concat, List.map_append, List.count_append, ← repeated, ih,
      List.count_append, List.count_singleton]
    by_cases h : key = k
    · subst h
      by_cases hk : key ∈ keys
      · simp [hk]
      · simp [hk, List.count_eq_zero.mpr hk]
    · split <;> simp [h]

theorem repeated_perm (h : keys.Perm keys') : (repeated keys).Perm (repeated keys') :=
  List.perm_iff_count.mpr fun k => by rw [count_repeated, count_repeated, h.count_eq]

end Pipeline
