/-! # Dictionaries in key order

A dictionary is a list of pairs whose keys strictly ascend, so equal content means equal value and
`entries` is the order in which every output shows it. Keys compare by code point, which for text
is also the order of the UTF-8 bytes. `get?` is the view: each operation is pinned by what it does
to look-ups. -/

namespace PingDelivery

structure Dict (β : Type) where
  entries : List (String × β)
  ascending : entries.Pairwise fun a b => a.1 < b.1
  deriving DecidableEq

namespace Dict
variable {β γ : Type}

instance : Inhabited (Dict β) := ⟨⟨[], .nil⟩⟩

def empty : Dict β := ⟨[], .nil⟩

def find (k : String) : List (String × β) → Option β
  | [] => none
  | (k', v) :: r => if k = k' then some v else find k r

def get? (d : Dict β) (k : String) : Option β := find k d.entries

def contains (d : Dict β) (k : String) : Bool := (d.get? k).isSome

def keys (d : Dict β) : List String := d.entries.map (·.1)

def size (d : Dict β) : Nat := d.entries.length

def isEmpty (d : Dict β) : Bool := d.entries.isEmpty

/-- Puts the pair at its place, over an earlier pair of the same key. -/
def place (k : String) (v : β) : List (String × β) → List (String × β)
  | [] => [(k, v)]
  | (k', v') :: r =>
    if k < k' then (k, v) :: (k', v') :: r
    else if k = k' then (k, v) :: r
    else (k', v') :: place k v r

theorem mem_place {k : String} {v : β} {l : List (String × β)} {p : String × β}
    (h : p ∈ place k v l) : p = (k, v) ∨ p ∈ l := by
  induction l with
  | nil => simpa [place] using h
  | cons q r ih =>
    obtain ⟨k', v'⟩ := q
    simp only [place] at h
    split at h
    · simpa using h
    · split at h
      · rcases List.mem_cons.1 h with h | h
        · exact .inl h
        · exact .inr (List.mem_cons_of_mem _ h)
      · rcases List.mem_cons.1 h with h | h
        · exact .inr (h ▸ List.mem_cons_self)
        · exact (ih h).imp id (List.mem_cons_of_mem _)

theorem ascending_place {k : String} {v : β} {l : List (String × β)}
    (h : l.Pairwise fun a b => a.1 < b.1) : (place k v l).Pairwise fun a b => a.1 < b.1 := by
  induction l with
  | nil => simp [place]
  | cons q r ih =>
    obtain ⟨k', v'⟩ := q
    obtain ⟨hq, hr⟩ := List.pairwise_cons.1 h
    simp only [place]
    split
    · rename_i hlt
      refine List.pairwise_cons.2 ⟨fun p hp => ?_, h⟩
      rcases List.mem_cons.1 hp with rfl | hp
      · exact hlt
      · exact String.lt_trans hlt (hq p hp)
    · rename_i hnlt
      split
      · rename_i heq
        subst heq
        exact List.pairwise_cons.2 ⟨fun p hp => hq p hp, hr⟩
      · rename_i hne
        refine List.pairwise_cons.2 ⟨fun p hp => ?_, ih hr⟩
        rcases mem_place hp with rfl | hp
        · exact String.not_le.1 fun hle =>
            hne (String.le_antisymm hle (String.not_lt.1 hnlt))
        · exact hq p hp

def insert (d : Dict β) (k : String) (v : β) : Dict β :=
  ⟨place k v d.entries, ascending_place d.ascending⟩

def remove (k : String) (l : List (String × β)) : List (String × β) := l.filter fun p => p.1 ≠ k

def erase (d : Dict β) (k : String) : Dict β :=
  ⟨remove k d.entries, d.ascending.sublist List.filter_sublist⟩

/-- Later pairs win over earlier ones of the same key. -/
def ofList (l : List (String × β)) : Dict β := l.foldl (fun d p => d.insert p.1 p.2) empty

def foldl {σ : Type} (f : σ → String → β → σ) (s : σ) (d : Dict β) : σ :=
  d.entries.foldl (fun s p => f s p.1 p.2) s

@[simp] theorem get?_empty (k : String) : (empty : Dict β).get? k = none := rfl

theorem find_place (k k' : String) (v : β) (l : List (String × β)) :
    find k' (place k v l) = if k' = k then some v else find k' l := by
  induction l with
  | nil => simp [place, find]
  | cons q r ih =>
    obtain ⟨j, w⟩ := q
    simp only [place]
    split
    · simp [find]
    · split
      · rename_i heq
        subst heq
        by_cases h : k' = k <;> simp [find, h]
      · rename_i hne
        simp only [find, ih]
        by_cases hj : k' = j
        · subst hj
          simp [Ne.symm hne]
        · simp [hj]

@[simp] theorem get?_insert (d : Dict β) (k k' : String) (v : β) :
    (d.insert k v).get? k' = if k' = k then some v else d.get? k' := find_place k k' v d.entries

theorem ofList_concat (l : List (String × β)) (k : String) (v : β) :
    ofList (l ++ [(k, v)]) = (ofList l).insert k v := by
  rw [ofList, List.foldl_append]
  rfl

theorem find_remove (k k' : String) (l : List (String × β)) :
    find k' (remove k l) = if k' = k then none else find k' l := by
  induction l with
  | nil => simp [remove, find]
  | cons q r ih =>
    obtain ⟨j, w⟩ := q
    simp only [remove] at ih
    simp only [remove, List.filter_cons]
    by_cases hj : j = k
    · subst hj
      by_cases h : k' = j <;> simp_all [find]
    · by_cases h : k' = j
      · subst h
        simp [hj, find]
      · simp only [ne_eq, decide_not] at ih
        simp [hj, find, ih, h]

@[simp] theorem get?_erase (d : Dict β) (k k' : String) :
    (d.erase k).get? k' = if k' = k then none else d.get? k' := find_remove k k' d.entries

theorem nodup_keys (d : Dict β) : d.keys.Nodup :=
  (List.pairwise_map.2 d.ascending).imp String.ne_of_lt

theorem find_isSome {k : String} {l : List (String × β)} (h : (find k l).isSome) :
    k ∈ l.map (·.1) := by
  induction l with
  | nil => cases h
  | cons p r ih =>
    obtain ⟨k', v⟩ := p
    by_cases hk : k = k'
    · exact hk ▸ List.mem_cons_self
    · rw [find, if_neg hk] at h
      exact List.mem_cons_of_mem _ (ih h)

theorem mem_keys_of_isSome {d : Dict β} {k : String} (h : (d.get? k).isSome) : k ∈ d.keys :=
  find_isSome h

theorem isSome_find {k : String} {l : List (String × β)} (h : k ∈ l.map (·.1)) :
    (find k l).isSome := by
  induction l with
  | nil => cases h
  | cons p r ih =>
    obtain ⟨k', v⟩ := p
    rw [find]
    split
    · rfl
    · rename_i hne
      exact ih ((List.mem_cons.1 h).resolve_left hne)

theorem mem_keys {d : Dict β} {k : String} : k ∈ d.keys ↔ (d.get? k).isSome :=
  ⟨isSome_find, mem_keys_of_isSome⟩

theorem mem_keys_insert {d : Dict β} {k k' : String} {v : β} (h : k' ∈ (d.insert k v).keys) :
    k' = k ∨ k' ∈ d.keys := by
  obtain ⟨p, hp, rfl⟩ := List.mem_map.1 h
  rcases mem_place hp with rfl | hp
  · exact .inl rfl
  · exact .inr (List.mem_map_of_mem hp)

theorem mem_keys_erase {d : Dict β} {k k' : String} (h : k' ∈ (d.erase k).keys) : k' ∈ d.keys := by
  obtain ⟨p, hp, rfl⟩ := List.mem_map.1 h
  exact List.mem_map_of_mem (List.mem_filter.1 hp).1

end Dict
end PingDelivery
