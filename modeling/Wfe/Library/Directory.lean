import Mathlib.Data.List.Nodup

/-!
# Directories

A list of entries, each with an id and a name, in which one can look for either. The directory is
sound if no two entries have one name and no name is the id of another entry: then a name leads to
its own entry, whether ids or names are tried first. Ids are taken to be distinct.

## Main definitions

* `Directory.Sound`: names identify entries

## Main results

* `Directory.sound_concat_iff`: what a new entry must be like
* `Directory.Sound.eq_of_name`: a name leads to one entry
-/

namespace Directory

variable {α : Type} {l : List (α × α)} {id name : α}

/-- Names identify entries. -/
structure Sound (l : List (α × α)) : Prop where
  names : (l.map Prod.snd).Nodup
  cross : ∀ x ∈ l, ∀ y ∈ l, x.2 = y.1 → x = y

theorem sound_nil : Sound ([] : List (α × α)) := ⟨.nil, nofun⟩

/-- **A new entry keeps a directory sound** exactly if its name is new, is no id of another entry,
and no other entry has its id for a name. -/
theorem sound_concat_iff (hid : id ∉ l.map Prod.fst) :
    Sound (l ++ [(id, name)]) ↔
      Sound l ∧ name ∉ l.map Prod.snd ∧ name ∉ l.map Prod.fst ∧ id ∉ l.map Prod.snd := by
  have hne {x : α × α} (hx : x ∈ l) : x ≠ (id, name) := by
    rintro rfl
    exact hid (List.mem_map_of_mem hx)
  constructor
  · -- The new entry is compared with each of the others, in both ways.
    rintro ⟨hnames, hcross⟩
    rw [List.map_append, List.nodup_append] at hnames
    refine ⟨⟨hnames.1, fun x hx y hy => ?_⟩, ?_, ?_, ?_⟩
    · exact hcross x (List.mem_append_left _ hx) y (List.mem_append_left _ hy)
    · intro hmem
      exact hnames.2.2 name hmem name (by simp) rfl
    · intro hmem
      obtain ⟨y, hy, rfl⟩ := List.mem_map.1 hmem
      exact hne hy (hcross (id, y.1) (by simp) y (List.mem_append_left _ hy) rfl).symm
    · intro hmem
      obtain ⟨x, hx, rfl⟩ := List.mem_map.1 hmem
      exact hne hx (hcross x (List.mem_append_left _ hx) (x.2, name) (by simp) rfl)
  · rintro ⟨⟨hnames, hcross⟩, hname, hnameId, hidName⟩
    refine ⟨?_, fun x hx y hy hxy => ?_⟩
    · rw [List.map_append, List.nodup_append]
      refine ⟨hnames, List.pairwise_singleton _ _, fun n hn m hm => ?_⟩
      rw [List.map_singleton, List.mem_singleton] at hm
      rintro rfl
      exact hname (by rwa [hm] at hn)
    · rcases List.mem_append.1 hx with hx | hx <;> rcases List.mem_append.1 hy with hy | hy
      · exact hcross x hx y hy hxy
      · rw [List.mem_singleton.1 hy] at hxy
        exact absurd (List.mem_map.2 ⟨x, hx, hxy⟩) hidName
      · rw [List.mem_singleton.1 hx] at hxy
        exact absurd (List.mem_map.2 ⟨y, hy, hxy.symm⟩) hnameId
      · rw [List.mem_singleton.1 hx, List.mem_singleton.1 hy]

/-- A name leads to one entry. -/
theorem Sound.eq_of_name (h : Sound l) {x y : α × α} (hx : x ∈ l) (hy : y ∈ l) (hxy : x.2 = y.2) :
    x = y := List.inj_on_of_nodup_map h.names hx hy hxy

end Directory
