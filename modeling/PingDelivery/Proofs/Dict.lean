import PingDelivery.Dict
import Mathlib.Data.List.Perm.Basic

/-! # Dictionaries and what is found in them

Of keys that strictly ascend each is met once, so an entry is what a look-up under its key finds
(`mem_entries`), and two dictionaries in which the same is found are one: `ext_get?`.
-/

namespace PingDelivery

namespace Dict
variable {β : Type}

theorem find_of_lt {k : String} {l : List (String × β)} (h : ∀ p ∈ l, k < p.1) : find k l = none := by
  induction l with
  | nil => rfl
  | cons p l ih =>
    rw [find, if_neg (String.ne_of_lt (h p List.mem_cons_self)),
      ih fun q hq => h q (List.mem_cons_of_mem _ hq)]

theorem find_of_mem {p : String × β} {l : List (String × β)}
    (hl : l.Pairwise fun a b => a.1 < b.1) (h : p ∈ l) : find p.1 l = some p.2 := by
  induction l with
  | nil => cases h
  | cons q l ih =>
    obtain ⟨hq, hl⟩ := List.pairwise_cons.1 hl
    rw [find]
    rcases List.mem_cons.1 h with rfl | h
    · rw [if_pos rfl]
    · rw [if_neg (String.ne_of_lt (hq p h)).symm, ih hl h]

theorem mem_of_find {k : String} {v : β} {l : List (String × β)} (h : find k l = some v) :
    (k, v) ∈ l := by
  induction l with
  | nil => cases h
  | cons q l ih =>
    rw [find] at h
    split at h
    · rename_i hk
      cases h
      exact hk ▸ List.mem_cons_self
    · exact List.mem_cons_of_mem _ (ih h)

theorem mem_entries {d : Dict β} {p : String × β} : p ∈ d.entries ↔ d.get? p.1 = some p.2 :=
  ⟨find_of_mem d.ascending, mem_of_find⟩

/-- The view determines the dictionary. -/
theorem ext_get? {d d' : Dict β} (h : ∀ k, d.get? k = d'.get? k) : d = d' := by
  have hnodup (e : Dict β) : e.entries.Nodup :=
    e.ascending.imp fun hlt heq => String.ne_of_lt hlt (congrArg Prod.fst heq)
  have hperm : d.entries.Perm d'.entries :=
    (List.perm_ext_iff_of_nodup (hnodup d) (hnodup d')).2 fun p => by rw [mem_entries, mem_entries, h]
  have hentries : d.entries = d'.entries :=
    hperm.eq_of_pairwise (fun _ _ _ _ hlt hgt => absurd hgt (String.lt_asymm hlt)) d.ascending d'.ascending
  cases d
  cases d'
  cases hentries
  rfl

theorem get?_of_isEmpty {d : Dict β} (h : d.isEmpty = true) (k : String) : d.get? k = none := by
  rw [get?, List.isEmpty_iff.1 h]
  rfl

theorem isEmpty_insert (d : Dict β) (k : String) (v : β) : (d.insert k v).isEmpty = false := by
  rw [← Bool.not_eq_true]
  intro h
  have hk := get?_of_isEmpty h k
  rw [get?_insert, if_pos rfl] at hk
  cases hk

end Dict

end PingDelivery
